import TWA.VoiceClient.Scanner
import Mathlib.Tactic.Ring

/-!
# Scanning ends on every payload

Every loop of the scanner moves forward and every index is in range, whatever the
bytes are.  The loop of `unescape` needs more: it stands still on a slice that
ends in an unpaired backslash.  `scanString` steps over a backslash together with
the byte behind it, so the slices it returns pair their backslashes, and
`unescape` keeps to that pairing.
-/

namespace TWA

open Foundation
open Foundation.Exec

namespace VoiceClient

/-- Every backslash is followed by the byte it escapes, up to the given tail. -/
inductive Paired (tail : List UInt8) : List UInt8 -> Prop where
  | done : Paired tail tail
  | other {b : UInt8} {bs : List UInt8} (hb : b ≠ Json.backslash)
      (h : Paired tail bs) : Paired tail (b :: bs)
  | pair {b : UInt8} {bs : List UInt8} (h : Paired tail bs) :
      Paired tail (Json.backslash :: b :: bs)

/-- A value that starts with a quote is a whole string with paired backslashes. -/
def WellQuoted (value : List UInt8) : Prop :=
  value.head? = some Json.quote ->
    exists body, value = Json.quote :: body ++ [Json.quote] ∧ Paired [] body

theorem WellQuoted.body {value : List UInt8} (h : WellQuoted value)
    (hhead : value.head? = some Json.quote) :
    exists body, 1 ≤ value.length ∧
      slice value 1 (value.length - 1) = .ok body ∧ Paired [] body := by
  rcases h hhead with ⟨body, hvalue, hpaired⟩
  have hlen : value.length = body.length + 2 := by
    rw [hvalue]
    simp
  refine ⟨body, by omega, ?_, hpaired⟩
  rw [slice_of_le (by omega) (Nat.sub_le _ _), hvalue]
  simp

/-!
## Tokens
-/

section Tokens

variable {payload : List UInt8}

theorem skipWs_ok {i : Nat} (hi : i ≤ payload.length) :
    Yields (skipWs payload i) fun j => i ≤ j ∧ j < payload.length := by
  unfold skipWs
  rw [advanceWhile_eq _ _ hi, ok_bind]
  split
  · rename_i hlt
    exact Yields.some ⟨Nat.le_add_right _ _, hlt⟩
  · exact Yields.none

theorem slice_cons {i stop : Nat} (hi : i < stop) (hstop : stop ≤ payload.length) :
    (payload.take stop).drop i =
      payload[i] :: (payload.take stop).drop (i + 1) := by
  rw [List.drop_eq_getElem_cons (by rw [List.length_take]; omega),
    List.getElem_take]

structure StringEnd (payload : List UInt8) (i j : Nat) (body : List UInt8)
    (stop : Nat) : Prop where
  lt : j < stop
  le : stop ≤ payload.length
  quote : payload[stop - 1]? = some Json.quote
  body_eq : body = (payload.take (stop - 1)).drop (i + 1)
  paired : Paired [] ((payload.take (stop - 1)).drop j)

theorem stringLoop_ok (i : Nat) {fuel j : Nat} (hij : i < j) (hpos : 0 < fuel)
    (hfuel : payload.length < fuel + j) :
    Yields (stringLoop payload i fuel j) fun found =>
      StringEnd payload i j found.1 found.2 := by
  induction fuel generalizing j with
  | zero => omega
  | succ fuel ih =>
      unfold stringLoop
      by_cases hlt : j < payload.length
      · rw [if_pos hlt, index_of_lt hlt, ok_bind]
        by_cases hback : payload[j] = Json.backslash
        · rw [if_pos hback]
          refine (ih (j := j + 2) (by omega) (by omega) (by omega)).mono ?_
          intro range hend
          rcases range with ⟨body, stop⟩
          rcases hend with ⟨hstop, hle, hquote, hbody, hpaired⟩
          refine ⟨by omega, hle, hquote, hbody, ?_⟩
          rw [slice_cons (by omega) (by omega), hback,
            slice_cons (by omega) (by omega)]
          exact Paired.pair hpaired
        · rw [if_neg hback]
          by_cases hquote : payload[j] = Json.quote
          · rw [if_pos hquote, slice_of_le (by omega) (by omega), ok_bind]
            refine Yields.some ⟨Nat.lt_succ_self j, hlt, ?_, rfl, ?_⟩
            · rw [Nat.add_sub_cancel, List.getElem?_eq_getElem hlt, hquote]
            · rw [Nat.add_sub_cancel, List.drop_eq_nil_of_le]
              · exact Paired.done
              · rw [List.length_take]
                exact Nat.min_le_left _ _
          · rw [if_neg hquote]
            refine (ih (j := j + 1) (by omega) (by omega) (by omega)).mono ?_
            intro range hend
            rcases range with ⟨body, stop⟩
            rcases hend with ⟨hstop, hle, hlast, hbody, hpaired⟩
            refine ⟨by omega, hle, hlast, hbody, ?_⟩
            rw [slice_cons (by omega) (by omega)]
            exact Paired.other hback hpaired
      · rw [if_neg hlt]
        exact Yields.none

theorem scanString_ok (payload : List UInt8) (i : Nat) :
    Yields (scanString payload i) fun found =>
      StringEnd payload i (i + 1) found.1 found.2 := by
  unfold scanString
  by_cases hquote : payload[i]? = some Json.quote
  · rw [if_pos hquote]
    rcases List.getElem?_eq_some_iff.mp hquote with ⟨hlt, _⟩
    exact stringLoop_ok i (Nat.lt_succ_self i) (Nat.succ_pos _) (by omega)
  · rw [if_neg hquote]
    exact Yields.none

def Ahead (payload : List UInt8) (i stop : Nat) : Prop :=
  i < stop ∧ stop ≤ payload.length

theorem Ahead.mono {i j stop : Nat} (hij : i ≤ j) (h : Ahead payload j stop) :
    Ahead payload i stop :=
  ⟨Nat.lt_of_le_of_lt hij h.1, h.2⟩

theorem nestedLoop_ok {opening closing : UInt8} {fuel depth j : Nat}
    (hdepth : 0 < depth) (hpos : 0 < fuel)
    (hfuel : payload.length < fuel + j) :
    Yields (nestedLoop payload opening closing fuel depth j)
      (Ahead payload j) := by
  induction fuel generalizing depth j with
  | zero => omega
  | succ fuel ih =>
      unfold nestedLoop
      by_cases hlt : j < payload.length
      · rw [if_pos hlt, index_of_lt hlt, ok_bind]
        -- every branch goes on further ahead, with a bracket still open
        have hnext (depth' j' : Nat) (hopen : 0 < depth') (hj : j < j') :
            Yields (nestedLoop payload opening closing fuel depth' j')
              (Ahead payload j) :=
          (ih (j := j') hopen (by omega) (by omega)).mono
            fun _ hahead => hahead.mono (Nat.le_of_lt hj)
        by_cases hquote : payload[j] = Json.quote
        · rw [if_pos hquote]
          apply Yields.attempt (scanString_ok payload j)
          intro range hend
          rcases range with ⟨body, stop⟩
          have hstop := hend.lt
          simp only at hstop ⊢
          rw [sub_of_le (by omega), ok_bind]
          exact hnext depth _ hdepth (by omega)
        · rw [if_neg hquote]
          by_cases hopening : payload[j] = opening
          · rw [if_pos hopening]
            exact hnext (depth + 1) (j + 1) (Nat.succ_pos _) (Nat.lt_succ_self j)
          · rw [if_neg hopening]
            by_cases hclosing : payload[j] = closing
            · rw [if_pos hclosing, sub_of_le hdepth, ok_bind]
              by_cases hlast : depth - 1 = 0
              · rw [if_pos hlast]
                exact Yields.some ⟨Nat.lt_succ_self j, hlt⟩
              · rw [if_neg hlast]
                exact hnext (depth - 1) (j + 1) (by omega) (Nat.lt_succ_self j)
            · rw [if_neg hclosing]
              exact hnext depth (j + 1) hdepth (Nat.lt_succ_self j)
      · rw [if_neg hlt]
        exact Yields.none

theorem scanNested_ok {i : Nat} (hi : i < payload.length)
    (hquote : payload[i] ≠ Json.quote) :
    Yields (scanNested payload i) (Ahead payload i) := by
  unfold scanNested
  rw [index_of_lt hi, ok_bind,
    show payload.length - i + 1 = (payload.length - i - 1 + 1) + 1 by omega]
  -- the first round sees the opening bracket
  rw [nestedLoop, if_pos hi, index_of_lt hi, ok_bind, if_neg hquote, if_pos rfl]
  exact (nestedLoop_ok (by omega) (by omega) (by omega)).mono
    fun _ hahead => hahead.mono (Nat.le_succ i)

theorem scanWord_ok (word : String) {i : Nat} (hi : i ≤ payload.length)
    (hword : Json.bytes word ≠ []) :
    Yields (scanWord word payload i) (Ahead payload i) := by
  unfold scanWord
  rw [slice_of_le hi (Nat.le_refl _), ok_bind, List.take_length]
  split
  · rename_i hpre
    have hle := (List.isPrefixOf_iff_prefix.mp hpre).length_le
    have hpos := List.length_pos_iff.mpr hword
    rw [List.length_drop] at hle
    exact Yields.some ⟨by omega, by omega⟩
  · exact Yields.none

structure ValueEnd (payload : List UInt8) (i stop : Nat) : Prop where
  ahead : Ahead payload i stop
  wellQuoted : WellQuoted ((payload.take stop).drop i)

theorem StringEnd.valueEnd {i : Nat} {body : List UInt8} {stop : Nat}
    (hi : i < payload.length) (hquote : payload[i] = Json.quote)
    (h : StringEnd payload i (i + 1) body stop) : ValueEnd payload i stop := by
  have hlt := h.lt
  have hle := h.le
  refine ⟨⟨by omega, hle⟩, fun _ => ⟨_, ?_, h.paired⟩⟩
  have hlast : payload.take (stop - 1 + 1) =
      payload.take (stop - 1) ++ [Json.quote] := by
    rw [List.take_add_one, h.quote]
    rfl
  rw [show stop - 1 + 1 = stop by omega] at hlast
  rw [hlast, List.drop_append_of_le_length (by rw [List.length_take]; omega),
    slice_cons (by omega) (by omega), hquote]

theorem Ahead.valueEnd {i stop : Nat} (hi : i < payload.length)
    (hquote : payload[i] ≠ Json.quote) (h : Ahead payload i stop) :
    ValueEnd payload i stop := by
  refine ⟨h, fun hhead => ?_⟩
  rw [slice_cons h.1 h.2, List.head?_cons, Option.some.injEq] at hhead
  exact absurd hhead hquote

theorem scanValue_ok {i : Nat} (hi : i < payload.length) :
    Yields (scanValue payload i) (ValueEnd payload i) := by
  unfold scanValue
  rw [List.getElem?_eq_getElem hi]
  by_cases hquote : payload[i] = Json.quote
  · simp only [if_pos hquote]
    apply Yields.attempt (scanString_ok payload i)
    intro range hend
    rcases range with ⟨body, stop⟩
    exact Yields.some (hend.valueEnd hi hquote)
  · have hplain {x : Exec (Option Nat)} (hx : Yields x (Ahead payload i)) :
        Yields x (ValueEnd payload i) :=
      hx.mono fun _ hahead => hahead.valueEnd hi hquote
    have hword (word : String) (hne : Json.bytes word ≠ []) :
        Yields (scanWord word payload i) (ValueEnd payload i) :=
      hplain (scanWord_ok word (Nat.le_of_lt hi) hne)
    simp only [if_neg hquote]
    by_cases hnested : payload[i] = Json.openBrace ∨ payload[i] = Json.openBracket
    · rw [if_pos hnested]
      exact hplain (scanNested_ok hi hquote)
    · rw [if_neg hnested]
      by_cases htrue : payload[i] = 0x74
      · rw [if_pos htrue]
        exact hword "true" (by decide)
      · rw [if_neg htrue]
        by_cases hfalse : payload[i] = 0x66
        · rw [if_pos hfalse]
          exact hword "false" (by decide)
        · rw [if_neg hfalse]
          by_cases hnull : payload[i] = 0x6E
          · rw [if_pos hnull]
            exact hword "null" (by decide)
          · rw [if_neg hnull, advanceWhile_eq _ _ (Nat.le_of_lt hi), ok_bind]
            have hlen := (List.takeWhile_prefix isNumberByte
              (l := payload.drop i)).length_le
            rw [List.length_drop] at hlen
            apply hplain
            split
            · exact Yields.some ⟨by omega, by omega⟩
            · exact Yields.none

end Tokens

/-!
## Entries
-/

section Entries

variable {payload : List UInt8}

theorem readEntry_ok {i : Nat} (hi : i ≤ payload.length) :
    Yields (readEntry payload i) fun entry =>
      Ahead payload i entry.2.2 ∧ WellQuoted entry.2.1 := by
  apply Yields.attempt (skipWs_ok hi)
  intro j hbounds
  rcases hbounds with ⟨hij, hj⟩
  rw [index_of_lt hj, ok_bind]
  by_cases hclose : payload[j] = Json.closeBrace
  · rw [if_pos hclose]
    exact Yields.none
  · rw [if_neg hclose]
    by_cases hquote : payload[j] ≠ Json.quote
    · rw [if_pos hquote]
      exact Yields.none
    · rw [if_neg hquote]
      apply Yields.attempt (scanString_ok payload j)
      intro range hend
      rcases range with ⟨key, stop⟩
      have hlt := hend.lt
      have hle := hend.le
      simp only at hlt hle
      apply Yields.attempt (skipWs_ok hle)
      intro k hbounds
      rcases hbounds with ⟨hsk, hk⟩
      rw [index_of_lt hk, ok_bind]
      by_cases hcolon : payload[k] ≠ Json.colon
      · rw [if_pos hcolon]
        exact Yields.none
      · rw [if_neg hcolon]
        apply Yields.attempt (skipWs_ok hk)
        intro v0 hbounds
        rcases hbounds with ⟨hkv, hv0⟩
        apply Yields.attempt (scanValue_ok hv0)
        intro vend hvalue
        have hvlt := hvalue.ahead.1
        have hvle := hvalue.ahead.2
        rw [slice_of_le (Nat.le_of_lt hvlt) hvle, ok_bind]
        exact Yields.some ⟨⟨show i < vend by omega, hvle⟩, hvalue.wellQuoted⟩

section Walk

variable {state : Type} {f : List UInt8 -> List UInt8 -> state -> Bool × state}
  {P : state -> Prop}

theorem entryLoop_ok
    (hf : forall key value s, WellQuoted value -> P s -> P (f key value s).2)
    {fuel i : Nat} {s : state} (hpos : 0 < fuel)
    (hfuel : payload.length < fuel + i) (hi : i ≤ payload.length) (hs : P s) :
    exists s', entryLoop payload f fuel i s = .ok s' ∧ P s' := by
  induction fuel generalizing i s with
  | zero => omega
  | succ fuel ih =>
      unfold entryLoop
      rcases readEntry_ok hi with ⟨r, hr, hentry⟩
      rw [hr, ok_bind]
      cases r with
      | none => exact ⟨s, rfl, hs⟩
      | some entry =>
          rcases entry with ⟨key, value, vend⟩
          rcases hentry _ rfl with ⟨⟨hlt, hle⟩, hquoted⟩
          simp only at hlt hle hquoted ⊢
          have hnext := hf key value s hquoted hs
          cases hmore : (f key value s).1 with
          | false =>
              simp only [Bool.not_false, if_true]
              exact ⟨_, rfl, hnext⟩
          | true =>
              simp only [Bool.not_true, Bool.false_eq_true, if_false]
              rcases skipWs_ok hle with ⟨r, hr, hk⟩
              rw [hr, ok_bind]
              cases r with
              | none => exact ⟨_, rfl, hnext⟩
              | some k =>
                  rcases hk k rfl with ⟨hvk, hklt⟩
                  simp only
                  rw [index_of_lt hklt, ok_bind]
                  by_cases hcomma : payload[k] = Json.comma
                  · rw [if_pos hcomma]
                    exact ih (by omega) (by omega) hklt hnext
                  · rw [if_neg hcomma]
                    exact ⟨_, rfl, hnext⟩

theorem forEachEntry_ok
    (hf : forall key value s, WellQuoted value -> P s -> P (f key value s).2)
    {s : state} (hs : P s) :
    exists s', forEachEntry payload f s = .ok s' ∧ P s' := by
  unfold forEachEntry
  rcases skipWs_ok (Nat.zero_le payload.length) with ⟨r, hr, hi⟩
  rw [hr, ok_bind]
  cases r with
  | none => exact ⟨s, rfl, hs⟩
  | some i =>
      rcases hi i rfl with ⟨_, hlt⟩
      simp only
      rw [index_of_lt hlt, ok_bind]
      by_cases hopen : payload[i] = Json.openBrace
      · rw [if_pos hopen]
        exact entryLoop_ok hf (Nat.succ_pos _) (by omega) hlt hs
      · rw [if_neg hopen]
        exact ⟨s, rfl, hs⟩

end Walk

theorem jsonRaw_ok (payload key : List UInt8) :
    Yields (jsonRaw payload key) WellQuoted := by
  apply forEachEntry_ok (P := fun found => forall v, found = some v -> WellQuoted v)
  · intro k value found hquoted hfound
    by_cases hkey : k = key
    · rw [if_pos hkey]
      intro v heq
      cases heq
      exact hquoted
    · rw [if_neg hkey]
      exact hfound
  · intro v heq
    cases heq

end Entries

/-!
## Escapes
-/

section Escapes

variable {s tail : List UInt8}

/-- Reading `ns.length` digits ends without overflow; if all are hexadecimal, none is
a backslash. -/
theorem hexLoop_ok {i : Nat} {ns : List Nat} {v : Nat}
    (hns : forall n, n ∈ ns -> i + n < s.length)
    (hv : (v + 1) * 16 ^ ns.length ≤ 65536) :
    Yields (hexLoop s i ns v) fun _ =>
      forall n, n ∈ ns -> s[i + n]? ≠ some Json.backslash := by
  induction ns generalizing v with
  | nil => exact Yields.some (by simp)
  | cons n ns ih =>
      have hlt := hns n List.mem_cons_self
      unfold hexLoop
      rw [index_of_lt hlt, ok_bind]
      cases hdigit : Json.hexValue s[i + n] with
      | none => exact Yields.none
      | some d =>
          have hd := Json.hexValue_lt hdigit
          rw [List.length_cons, Nat.pow_succ] at hv
          have hone : 1 ≤ 16 ^ ns.length := Nat.one_le_pow _ _ (by decide)
          have hfits : (v * 16 + d + 1) * 16 ^ ns.length ≤ 65536 := by
            calc (v * 16 + d + 1) * 16 ^ ns.length
                ≤ (v * 16 + 16) * 16 ^ ns.length :=
                  Nat.mul_le_mul_right _ (by omega)
              _ = (v + 1) * (16 ^ ns.length * 16) := by ring
              _ ≤ 65536 := hv
          have hsmall : v * 16 + d + 1 ≤ 65536 :=
            Nat.le_trans (Nat.le_mul_of_pos_right _ hone) hfits
          simp only [checkU16, if_pos (show v * 16 < 65536 by omega),
            if_pos (show v * 16 + d < 65536 by omega), ok_bind]
          refine (ih (fun m hm => hns m (List.mem_cons_of_mem _ hm)) hfits).mono ?_
          intro _ hrest m hm
          rcases List.mem_cons.mp hm with rfl | hm
          · rw [List.getElem?_eq_getElem hlt]
            intro hcontra
            rw [Option.some.injEq] at hcontra
            exact (Json.hexValue_plain hdigit).2 hcontra
          · exact hrest m hm

def IsTail (tail : List UInt8) : Prop :=
  tail = [] ∨ tail = [Json.backslash]

theorem Paired.of_other {b : UInt8} {bs : List UInt8} (htail : IsTail tail)
    (hb : b ≠ Json.backslash) (h : Paired tail (b :: bs)) : Paired tail bs := by
  cases h with
  | done =>
      rcases htail with hnil | hlone
      · cases hnil
      · cases hlone
        exact absurd rfl hb
  | other _ h => exact h
  | pair _ => exact absurd rfl hb

theorem Paired.skip {i k : Nat} (htail : IsTail tail) (hk : i + k ≤ s.length)
    (hplain : forall n, n < k -> s[i + n]? ≠ some Json.backslash)
    (h : Paired tail (s.drop i)) : Paired tail (s.drop (i + k)) := by
  induction k with
  | zero => exact h
  | succ k ih =>
      have hlt : i + k < s.length := by omega
      have hrest := ih (by omega) fun n hn => hplain n (by omega)
      rw [List.drop_eq_getElem_cons hlt] at hrest
      refine hrest.of_other htail ?_
      intro hcontra
      apply hplain k (Nat.lt_succ_self k)
      rw [List.getElem?_eq_getElem hlt, hcontra]

theorem Paired.of_backslash {bs : List UInt8}
    (h : Paired tail (Json.backslash :: bs)) :
    tail = Json.backslash :: bs ∨
      exists c rest, bs = c :: rest ∧ Paired tail rest := by
  cases h with
  | done => exact Or.inl rfl
  | other hb _ => exact absurd rfl hb
  | pair h => exact Or.inr ⟨_, _, rfl, h⟩

theorem Paired.dropWhile {bs : List UInt8} (htail : IsTail tail)
    (h : Paired tail bs) :
    Paired tail (bs.drop (bs.takeWhile (· != Json.backslash)).length) := by
  induction h with
  | done =>
      rcases htail with rfl | rfl
      · exact Paired.done
      · exact Paired.done
  | @other b bs hb h ih =>
      rw [List.takeWhile_cons_of_pos (by simpa using hb)]
      exact ih
  | @pair b bs h ih =>
      rw [List.takeWhile_cons_of_neg (by simp)]
      exact Paired.pair h

def At (tail s : List UInt8) (i : Nat) : Prop :=
  i ≤ s.length ∧ Paired tail (s.drop i)

theorem parseU16Hex_ok {i : Nat} (htail : IsTail tail) (h : At tail s i) :
    exists r i', parseU16Hex s i = .ok (r, i') ∧ i ≤ i' ∧ At tail s i' := by
  unfold parseU16Hex
  by_cases hshort : i + 4 > s.length
  · rw [if_pos hshort]
    exact ⟨none, i, rfl, Nat.le_refl i, h⟩
  · rw [if_neg hshort]
    have hdigits : Yields (hexLoop s i [0, 1, 2, 3] 0) fun _ =>
        forall n, n ∈ [0, 1, 2, 3] -> s[i + n]? ≠ some Json.backslash := by
      apply hexLoop_ok
      · intro n hn
        simp at hn
        omega
      · decide
    rcases hdigits with ⟨r, hr, hplain⟩
    rw [hr, ok_bind]
    cases r with
    | none => exact ⟨none, i, rfl, Nat.le_refl i, h⟩
    | some v =>
        refine ⟨some v, i + 4, rfl, Nat.le_add_right i 4, by omega, ?_⟩
        apply h.2.skip htail (by omega)
        intro n hn
        apply hplain v rfl n
        simp
        omega

theorem unescapeOne_ok {i : Nat} (c : UInt8) (out : Text) (htail : IsTail tail)
    (h : At tail s i) :
    exists i' out', unescapeOne s c i out = .ok (i', out') ∧ i ≤ i' ∧
      At tail s i' := by
  unfold unescapeOne
  split
  · exact ⟨i, _, rfl, Nat.le_refl i, h⟩
  · by_cases hu : c = 0x75
    · rw [if_pos hu]
      rcases parseU16Hex_ok htail h with ⟨r, i', hr, hle, hat⟩
      rw [hr, ok_bind]
      cases r with
      | none => exact ⟨i', out, rfl, hle, hat⟩
      | some cp =>
          simp only
          split
          · exact ⟨i', _, rfl, hle, hat⟩
          · split <;> exact ⟨i', _, rfl, hle, hat⟩
    · rw [if_neg hu]
      exact ⟨i, out, rfl, Nat.le_refl i, h⟩

theorem keepValid_ok {bytes : List UInt8} {good : Nat} (out : Text)
    (hgood : good ≤ bytes.length) :
    exists out', keepValid out bytes good = .ok out' := by
  unfold keepValid
  split
  · rw [slice_of_le (Nat.zero_le good) hgood, ok_bind]
    split <;> exact ⟨_, rfl⟩
  · exact ⟨out, rfl⟩

theorem badLength_ok {bytes : List UInt8} {e : Utf8.Error} (h : e.Within bytes) :
    exists skip, badLength bytes e = .ok skip ∧ 1 ≤ skip ∧
      e.validUpTo + skip ≤ bytes.length := by
  have hgood := h.validUpTo_lt
  unfold badLength
  rw [sub_of_le (Nat.le_of_lt hgood), ok_bind]
  cases hlen : e.errorLen with
  | none => exact ⟨_, rfl, by simp; omega, by simp; omega⟩
  | some k => exact ⟨k, rfl, h.errorLen_pos k hlen, h.errorLen_le k hlen⟩

theorem lossyLoop_ok {fuel : Nat} {bytes : List UInt8} (out : Text)
    (hfuel : bytes.length < fuel) :
    exists out', lossyLoop fuel out bytes = .ok out' := by
  induction fuel generalizing bytes out with
  | zero => omega
  | succ fuel ih =>
      unfold lossyLoop
      by_cases hempty : bytes = []
      · rw [if_pos hempty]
        exact ⟨out, rfl⟩
      · rw [if_neg hempty]
        cases hutf : Utf8.fromUtf8 bytes with
        | ok t => exact ⟨out ++ t, rfl⟩
        | error e =>
            have hgood := (Utf8.fromUtf8_within hutf).validUpTo_lt
            rcases keepValid_ok out (Nat.le_of_lt hgood) with ⟨out', hout⟩
            rcases badLength_ok (Utf8.fromUtf8_within hutf) with
              ⟨skip, hskip, hpos, hle⟩
            simp only [hout, hskip, ok_bind]
            rw [slice_of_le hle (Nat.le_refl _), ok_bind, List.take_length]
            apply ih
            rw [List.length_drop]
            omega

theorem appendUtf8Lossy_ok (out : Text) (bytes : List UInt8) :
    exists out', appendUtf8Lossy out bytes = .ok out' :=
  lossyLoop_ok out (Nat.lt_succ_self _)

theorem At.run {i : Nat} (htail : IsTail tail) (h : At tail s i)
    (hi : i < s.length) (hother : s[i] ≠ Json.backslash) :
    exists stop, advanceWhile (· != Json.backslash) s i = .ok stop ∧ i < stop ∧
      At tail s stop := by
  rw [advanceWhile_eq _ _ h.1]
  refine ⟨_, rfl, ?_, ?_, ?_⟩
  · rw [List.drop_eq_getElem_cons hi,
      List.takeWhile_cons_of_pos (by simpa using hother), List.length_cons]
    omega
  · have hlen := (List.takeWhile_prefix (· != Json.backslash)
      (l := s.drop i)).length_le
    rw [List.length_drop] at hlen
    omega
  · rw [← List.drop_drop]
    exact h.2.dropWhile htail

/-- One round of `unescape` goes on further ahead, in step with the pairing, or
stands before a lone last backslash and does not move. -/
theorem unescapeRound_ok {i : Nat} (out : Text) (htail : IsTail tail)
    (h : At tail s i) (hi : i < s.length) :
    (exists i' out', unescapeRound s i out = .ok (i', out') ∧ i < i' ∧
      At tail s i') ∨
      (tail = [Json.backslash] ∧ unescapeRound s i out = .ok (i, out)) := by
  unfold unescapeRound
  rw [index_of_lt hi, ok_bind]
  by_cases hback : s[i] = Json.backslash
  · have hpaired := h.2
    rw [List.drop_eq_getElem_cons hi, hback] at hpaired
    rcases hpaired.of_backslash with hlone | ⟨c, rest, hrest, hafter⟩
    · right
      have hlast : tail = [Json.backslash] := by
        rcases htail with hnil | hone
        · rw [hnil] at hlone
          cases hlone
        · exact hone
      refine ⟨hlast, ?_⟩
      rw [hlast] at hlone
      injection hlone with _ hnil
      have hlen := congrArg List.length hnil
      rw [List.length_drop, List.length_nil] at hlen
      have hstand : advanceWhile (· != Json.backslash) s i = .ok i := by
        rw [advanceWhile_eq _ _ h.1, List.drop_eq_getElem_cons hi, hback,
          List.takeWhile_cons_of_neg (by simp)]
        rfl
      rw [if_pos (Or.inr (by omega)), hstand, ok_bind,
        slice_of_le (Nat.le_refl i) h.1, ok_bind,
        List.drop_eq_nil_of_le (by rw [List.length_take]; exact Nat.min_le_left _ _)]
      rfl
    · -- an escape: its second byte is there
      left
      have hlen := congrArg List.length hrest
      rw [List.length_drop, List.length_cons] at hlen
      have hnext : i + 1 < s.length := by omega
      have hat : At tail s (i + 2) := by
        refine ⟨hnext, ?_⟩
        rw [List.drop_eq_getElem_cons hnext] at hrest
        injection hrest with _ htail
        rw [show i + 2 = i + 1 + 1 by rfl, htail]
        exact hafter
      rw [if_neg (by simp [hback]; omega), index_of_lt hnext, ok_bind]
      rcases unescapeOne_ok s[i + 1] out htail hat with ⟨i', out', hone, hle, hat'⟩
      exact ⟨i', out', hone, by omega, hat'⟩
  · left
    rcases h.run htail hi hback with ⟨stop, hrun, hahead, hat⟩
    rcases appendUtf8Lossy_ok out ((s.take stop).drop i) with ⟨out', hout⟩
    rw [if_pos (Or.inl hback), hrun, ok_bind,
      slice_of_le (Nat.le_of_lt hahead) hat.1, ok_bind, hout, ok_bind]
    exact ⟨stop, out', rfl, hahead, hat⟩

theorem unescapeRound_ahead {i : Nat} (out : Text) (h : At [] s i)
    (hi : i < s.length) :
    exists i' out', unescapeRound s i out = .ok (i', out') ∧ i < i' ∧ At [] s i' := by
  rcases unescapeRound_ok out (Or.inl rfl) h hi with hahead | ⟨hlone, _⟩
  · exact hahead
  · cases hlone

theorem unescapeLoop_ok {fuel i : Nat} (out : Text) (h : At [] s i)
    (hfuel : s.length < fuel + i) :
    exists text, unescapeLoop s fuel i out = .ok text := by
  induction fuel generalizing i out with
  | zero =>
      have hle := h.1
      omega
  | succ fuel ih =>
      by_cases hi : i < s.length
      · rcases unescapeRound_ahead out h hi with ⟨i', out', hround, hlt, hat⟩
        rw [unescapeLoop_round hi hround]
        exact ih out' hat (by omega)
      · rw [unescapeLoop, if_neg hi]
        exact ⟨out, rfl⟩

theorem unescape_ok (h : Paired [] s) : exists text, unescape s = .ok text :=
  unescapeLoop_ok [] ⟨Nat.zero_le _, h⟩ (Nat.lt_succ_self _)

/-- Where the loop of `unescape` comes to, with the text it has by then. -/
inductive Reaches (s : List UInt8) : Nat -> Text -> Prop where
  | start : Reaches s 0 []
  | round {i i' : Nat} {out out' : Text} (h : Reaches s i out) (hi : i < s.length)
      (hround : unescapeRound s i out = .ok (i', out')) : Reaches s i' out'

theorem Reaches.at {i : Nat} {out : Text} (htail : IsTail tail)
    (hs : Paired tail s) (h : Reaches s i out) : At tail s i := by
  induction h with
  | start => exact ⟨Nat.zero_le _, hs⟩
  | round _ hi hround ih =>
      rename_i out _ _
      rcases unescapeRound_ok out htail ih hi with
        ⟨i', out', hahead, _, hat⟩ | ⟨_, hstand⟩
      · rw [hround] at hahead
        cases hahead
        exact hat
      · rw [hround] at hstand
        cases hstand
        exact ih

theorem At.lt_of_lone {i : Nat} (h : At [Json.backslash] s i) : i < s.length := by
  by_contra hcontra
  have hpaired := h.2
  rw [List.drop_eq_nil_of_le (by omega)] at hpaired
  cases hpaired

/-- A slice that ends in an unpaired backslash is read up to that backslash, and
there the loop stands still. -/
theorem reaches_stand {i : Nat} {out : Text} (h : Reaches s i out)
    (hat : At [Json.backslash] s i) :
    exists i' out', Reaches s i' out' ∧ i' < s.length ∧
      unescapeRound s i' out' = .ok (i', out') := by
  induction hleft : s.length - i using Nat.strong_induction_on generalizing i out with
  | h left ih =>
      have hi := hat.lt_of_lone
      rcases unescapeRound_ok out (Or.inr rfl) hat hi with
        ⟨i', out', hround, hlt, hat'⟩ | ⟨_, hstand⟩
      · exact ih (s.length - i') (by omega) (h.round hi hround) hat' rfl
      · exact ⟨i, out, h, hi, hstand⟩

/-- No number of rounds is enough on such a slice. -/
theorem unescapeLoop_stuck {i : Nat} (fuel : Nat) (out : Text)
    (h : At [Json.backslash] s i) :
    unescapeLoop s fuel i out = .error .diverges := by
  induction fuel generalizing i out with
  | zero => rfl
  | succ fuel ih =>
      rcases unescapeRound_ok out (Or.inr rfl) h h.lt_of_lone with
        ⟨i', out', hround, _, hat⟩ | ⟨_, hstand⟩
      · rw [unescapeLoop_round h.lt_of_lone hround]
        exact ih out' hat
      · rw [unescapeLoop_round h.lt_of_lone hstand]
        exact ih out h

end Escapes

/-!
## Messages
-/

section Messages

variable (payload key : List UInt8)

theorem jsonString_ok : exists r, jsonString payload key = .ok r := by
  have htotal : Yields (jsonString payload key) fun _ => True := by
    apply Yields.attempt (jsonRaw_ok payload key)
    intro raw hquoted
    by_cases hhead : raw.head? ≠ some Json.quote
    · rw [if_pos hhead]
      exact Yields.none
    · rw [if_neg hhead]
      rcases hquoted.body (by simpa using hhead) with ⟨body, hlen, hbody, hpaired⟩
      rw [sub_of_le hlen, ok_bind, hbody, ok_bind]
      rcases unescape_ok hpaired with ⟨text, htext⟩
      rw [htext, ok_bind]
      exact Yields.some trivial
  rcases htotal with ⟨r, hr, _⟩
  exact ⟨r, hr⟩

theorem jsonU32_ok : exists r, jsonU32 payload key = .ok r := by
  rcases jsonRaw_ok payload key with ⟨r, hr, _⟩
  unfold jsonU32
  cases r with
  | none =>
      rw [attempt_none hr]
      exact ⟨none, rfl⟩
  | some raw =>
      rw [attempt_some hr]
      split <;> exact ⟨_, rfl⟩

theorem jsonBool_ok : exists r, jsonBool payload key = .ok r := by
  rcases jsonRaw_ok payload key with ⟨r, hr, _⟩
  unfold jsonBool
  cases r with
  | none =>
      rw [attempt_none hr]
      exact ⟨none, rfl⟩
  | some raw =>
      rw [attempt_some hr]
      exact ⟨_, rfl⟩

theorem textField_ok (name : String) : exists t, textField payload name = .ok t := by
  rcases jsonString_ok payload (Json.bytes name) with ⟨r, hr⟩
  unfold textField
  rw [hr, ok_bind]
  exact ⟨_, rfl⟩

theorem eventOfType_ok (ty : Text) : exists e, eventOfType payload ty = .ok e := by
  have hfixed (e : ServerEvent) : exists e', (pure e : Exec ServerEvent) = .ok e' :=
    ⟨e, rfl⟩
  have hfield (make : Text -> ServerEvent) (name : String) :
      exists e, make <$> textField payload name = .ok e := by
    rcases textField_ok payload name with ⟨t, ht⟩
    rw [ht]
    exact ⟨make t, rfl⟩
  have hspeaking : exists e, (do
      let speaking <- jsonBool payload (Json.bytes "speaking")
      pure (ServerEvent.vadSpeaking (speaking.getD false)) : Exec ServerEvent) =
        .ok e := by
    rcases jsonBool_ok payload (Json.bytes "speaking") with ⟨r, hr⟩
    rw [hr]
    exact ⟨_, rfl⟩
  have hrate : exists e,
      ServerEvent.audioStart <$> jsonU32 payload (Json.bytes "sample_rate") =
        .ok e := by
    rcases jsonU32_ok payload (Json.bytes "sample_rate") with ⟨r, hr⟩
    rw [hr]
    exact ⟨_, rfl⟩
  unfold eventOfType
  refine ok_ite (hfixed _) (ok_ite (hfixed _) (ok_ite hspeaking
    (ok_ite (hfield _ _) (ok_ite (hfield _ _) (ok_ite hrate
      (ok_ite (hfield _ _) (ok_ite (hfixed _) (ok_ite (hfield _ _)
        (ok_ite (hfield _ _) (ok_ite (hfixed _) (ok_ite (hfixed _)
          (ok_ite (hfield _ _) (ok_ite ?_ (hfixed _))))))))))))))
  rcases jsonString_ok payload (Json.bytes "message") with ⟨r, hr⟩
  rw [hr, ok_bind]
  cases r with
  | none => exact hfield _ _
  | some message => exact ⟨_, rfl⟩

end Messages

theorem parseServerMessage_total (payload : List UInt8) :
    exists event, parseServerMessage payload = .ok event := by
  rcases jsonString_ok payload (Json.bytes "type") with ⟨r, hr⟩
  unfold parseServerMessage
  rw [hr, ok_bind]
  cases r with
  | none => exact ⟨.unknown, rfl⟩
  | some ty => exact eventOfType_ok payload ty

/-- Parsing ends without a fault on every payload.  What `jsonString` hands to
`unescape` keeps its loop moving at every position it comes to, while on a slice
that ends in an unpaired backslash the loop would stand still. -/
theorem parsing_ends :
    (forall payload, exists event, parseServerMessage payload = .ok event) ∧
    (forall payload key raw, jsonRaw payload key = .ok (some raw) ->
      raw.head? = some Json.quote ->
        exists body, slice raw 1 (raw.length - 1) = .ok body ∧
          (exists text, unescape body = .ok text) ∧
          forall i out, Reaches body i out -> i < body.length ->
            exists i' out', unescapeRound body i out = .ok (i', out') ∧ i < i' ∧
              i' ≤ body.length) ∧
    (forall s, Paired [Json.backslash] s ->
      (forall fuel, unescapeLoop s fuel 0 [] = .error .diverges) ∧
        exists i out, Reaches s i out ∧ i < s.length ∧
          unescapeRound s i out = .ok (i, out)) := by
  refine ⟨parseServerMessage_total, ?_, ?_⟩
  · intro payload key raw hraw hhead
    rcases jsonRaw_ok payload key with ⟨r, hr, hquoted⟩
    rw [hraw] at hr
    cases hr
    rcases (hquoted raw rfl).body hhead with ⟨body, _, hslice, hpaired⟩
    refine ⟨body, hslice, unescape_ok hpaired, ?_⟩
    intro i out hreach hi
    rcases unescapeRound_ahead out (hreach.at (Or.inl rfl) hpaired) hi with
      ⟨i', out', hround, hlt, hat⟩
    exact ⟨i', out', hround, hlt, hat.1⟩
  · intro s hs
    have hat : At [Json.backslash] s 0 := ⟨Nat.zero_le _, hs⟩
    exact ⟨fun fuel => unescapeLoop_stuck fuel [] hat,
      reaches_stand Reaches.start hat⟩

end VoiceClient
end TWA
