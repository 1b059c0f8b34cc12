import TWA.VoiceClient.Scanner

/-!
# The scanner on renderings

On the rendering of a token the scanner stops exactly behind it.  For nested values
only one kind of bracket is counted, so the counting loop is shown to pass over
every rendered value: it comes out behind it with the depth it went in with.
-/

namespace TWA

open Foundation
open Foundation.Exec

namespace VoiceClient

section Renderings

variable {payload rest : List UInt8} {i : Nat}

theorem skipWs_remains {ws : List UInt8} {b : UInt8} (hws : Json.Ws ws)
    (hb : Json.isWs b = false) (h : Remains payload i (ws ++ b :: rest)) :
    skipWs payload i = .ok (some (i + ws.length)) := by
  unfold skipWs
  rw [h.advanceWhile, ok_bind, if_pos h.skip.lt]
  · rfl
  · exact List.all_eq_true.mp hws
  · intro x hx
    cases hx
    exact hb

/-!
## Strings
-/

theorem stringLoop_enclosed {bs : List UInt8} (henc : Json.Enclosed bs)
    {j fuel : Nat} (hij : i < j) (hfuel : bs.length < fuel)
    (h : Remains payload j (bs ++ Json.quote :: rest)) :
    stringLoop payload i fuel j =
      .ok (some ((payload.take (j + bs.length)).drop (i + 1), j + bs.length + 1)) := by
  induction henc generalizing j fuel with
  | nil =>
      cases fuel with
      | zero => cases hfuel
      | succ fuel =>
          rw [stringLoop, if_pos h.lt, h.index, ok_bind, if_neg (by decide),
            if_pos rfl, slice_of_le hij h.le]
          rfl
  | @plain b bs hquote hback henc ih =>
      rw [List.length_cons] at hfuel ⊢
      cases fuel with
      | zero => cases hfuel
      | succ fuel =>
          rw [stringLoop, if_pos h.lt, h.index, ok_bind, if_neg hback,
            if_neg hquote, ih (Nat.lt_succ_of_lt hij) (by omega) h.next]
          rw [show j + 1 + bs.length = j + (bs.length + 1) by omega]
  | @escape b bs henc ih =>
      rw [List.length_cons, List.length_cons] at hfuel ⊢
      cases fuel with
      | zero => cases hfuel
      | succ fuel =>
          rw [stringLoop, if_pos h.lt, h.index, ok_bind, if_pos rfl,
            ih (by omega) (by omega) h.next.next]
          rw [show j + 2 + bs.length = j + (bs.length + 1 + 1) by omega]

def quoted (bs : List UInt8) : List UInt8 :=
  Json.quote :: bs ++ [Json.quote]

@[simp] theorem length_quoted (bs : List UInt8) :
    (quoted bs).length = bs.length + 2 := by
  simp [quoted]

theorem scanString_quoted {bs : List UInt8} (henc : Json.Enclosed bs)
    (h : Remains payload i (quoted bs ++ rest)) :
    scanString payload i = .ok (some (bs, i + (quoted bs).length)) := by
  have hopen : Remains payload i (Json.quote :: (bs ++ Json.quote :: rest)) := by
    simpa [quoted] using h
  have hlen := hopen.next.length_eq
  rw [List.length_append] at hlen
  unfold scanString
  rw [if_pos hopen.getElem?_eq,
    stringLoop_enclosed henc (Nat.lt_succ_self i) (by omega) hopen.next]
  have hbody : (payload.take (i + 1 + bs.length)).drop (i + 1) = bs := by
    rw [List.drop_take, hopen.next.drop_eq, Nat.add_sub_cancel_left,
      List.take_left]
  rw [hbody, length_quoted, show i + 1 + bs.length + 1 = i + (bs.length + 2) by omega]

/-!
## Nested values
-/

/-- Inside a bracket the counting loop goes past the token, with the depth as it
was and with fuel for what follows. -/
def Passes (opening : UInt8) (tok : List UInt8) : Prop :=
  forall (payload rest : List UInt8) (i fuel depth : Nat),
    Remains payload i (tok ++ rest) -> 0 < depth -> tok.length ≤ fuel ->
      exists fuel', fuel ≤ fuel' + tok.length ∧
        nestedLoop payload opening (closingOf opening) fuel depth i =
          nestedLoop payload opening (closingOf opening) fuel' depth
            (i + tok.length)

variable {opening : UInt8}

theorem Passes.nil : Passes opening [] := by
  intro payload rest i fuel depth _ _ _
  exact ⟨fuel, Nat.le_refl _, rfl⟩

theorem Passes.append {s t : List UInt8} (hs : Passes opening s)
    (ht : Passes opening t) : Passes opening (s ++ t) := by
  intro payload rest i fuel depth h hdepth hfuel
  rw [List.append_assoc] at h
  rw [List.length_append] at hfuel ⊢
  rcases hs payload (t ++ rest) i fuel depth h hdepth (by omega) with
    ⟨fuel1, hfuel1, heq1⟩
  rcases ht payload rest (i + s.length) fuel1 depth h.skip hdepth (by omega) with
    ⟨fuel2, hfuel2, heq2⟩
  refine ⟨fuel2, by omega, ?_⟩
  rw [heq1, heq2, Nat.add_assoc]

theorem Passes.byte {b : UInt8} (hquote : b ≠ Json.quote) (hopen : b ≠ opening)
    (hclose : b ≠ closingOf opening) : Passes opening [b] := by
  intro payload rest i fuel depth h _ hfuel
  have hat : Remains payload i (b :: rest) := h
  cases fuel with
  | zero => cases hfuel
  | succ fuel =>
      refine ⟨fuel, Nat.le_refl _, ?_⟩
      rw [nestedLoop, if_pos hat.lt, hat.index, ok_bind, if_neg hquote,
        if_neg hopen, if_neg hclose]
      rfl

theorem Passes.bytes {bs : List UInt8}
    (h : forall b, b ∈ bs ->
      b ≠ Json.quote ∧ b ≠ opening ∧ b ≠ closingOf opening) :
    Passes opening bs := by
  induction bs with
  | nil => exact Passes.nil
  | cons b bs ih =>
      rcases h b List.mem_cons_self with ⟨hquote, hopen, hclose⟩
      exact Passes.append (Passes.byte hquote hopen hclose)
        (ih fun x hx => h x (List.mem_cons_of_mem b hx))

theorem Passes.string {bs : List UInt8} (henc : Json.Enclosed bs) :
    Passes opening (quoted bs) := by
  intro payload rest i fuel depth h _ hfuel
  have hat : Remains payload i (Json.quote :: (bs ++ Json.quote :: rest)) := by
    simpa [quoted] using h
  cases fuel with
  | zero => simp at hfuel
  | succ fuel =>
      refine ⟨fuel, by simp, ?_⟩
      rw [nestedLoop, if_pos hat.lt, hat.index, ok_bind, if_pos rfl,
        attempt_some (scanString_quoted henc h)]
      simp only [length_quoted]
      rw [sub_of_le (by omega), ok_bind]
      rfl

theorem Passes.brackets (hquote : opening ≠ Json.quote)
    (hclosing : closingOf opening ≠ Json.quote)
    (hne : closingOf opening ≠ opening) {inner : List UInt8}
    (hinner : Passes opening inner) :
    Passes opening (opening :: inner ++ [closingOf opening]) := by
  intro payload rest i fuel depth h hdepth hfuel
  have hat : Remains payload i (opening :: (inner ++ closingOf opening :: rest)) := by
    simpa using h
  simp only [List.cons_append, List.length_cons, List.length_append,
    List.length_nil] at hfuel ⊢
  cases fuel with
  | zero => omega
  | succ fuel =>
      rcases hinner payload _ (i + 1) fuel (depth + 1) hat.next (Nat.succ_pos _)
        (by omega) with ⟨fuel', hfuel', heq⟩
      cases fuel' with
      | zero => omega
      | succ fuel' =>
          refine ⟨fuel', by omega, ?_⟩
          have hend := hat.next.skip
          rw [nestedLoop, if_pos hat.lt, hat.index, ok_bind, if_neg hquote,
            if_pos rfl, heq, nestedLoop, if_pos hend.lt, hend.index, ok_bind,
            if_neg hclosing, if_neg hne, if_pos rfl, sub_of_le (by omega), ok_bind,
            Nat.add_sub_cancel, if_neg (by omega)]
          rw [show i + 1 + inner.length + 1 = i + (inner.length + (0 + 1) + 1) by
            omega]

def IsOpening (opening : UInt8) : Prop :=
  opening = Json.openBrace ∨ opening = Json.openBracket

theorem IsOpening.other (h : IsOpening opening) {b : UInt8}
    (hb : b ≠ Json.quote ∧ b ≠ Json.openBrace ∧ b ≠ Json.closeBrace ∧
      b ≠ Json.openBracket ∧ b ≠ Json.closeBracket) :
    b ≠ Json.quote ∧ b ≠ opening ∧ b ≠ closingOf opening := by
  rcases hb with ⟨hquote, hopen1, hclose1, hopen2, hclose2⟩
  rcases h with rfl | rfl
  · exact ⟨hquote, hopen1, hclose1⟩
  · exact ⟨hquote, hopen2, hclose2⟩

theorem ws_other {b : UInt8} (h : Json.isWs b = true) :
    b ≠ Json.quote ∧ b ≠ Json.openBrace ∧ b ≠ Json.closeBrace ∧
      b ≠ Json.openBracket ∧ b ≠ Json.closeBracket := by
  simp only [Json.isWs, Bool.or_eq_true, beq_iff_eq] at h
  rcases h with ((rfl | rfl) | rfl) | rfl <;> decide

theorem numberByte_other {b : UInt8} (h : Json.NumberByte b) :
    b ≠ Json.quote ∧ b ≠ Json.openBrace ∧ b ≠ Json.closeBrace ∧
      b ≠ Json.openBracket ∧ b ≠ Json.closeBracket := by
  rcases h with hdigit | rfl | rfl | rfl | rfl | rfl
  · simp only [Json.isDigit, Bool.and_eq_true, decide_eq_true_eq] at hdigit
    refine ⟨?_, ?_, ?_, ?_, ?_⟩ <;> (rintro rfl; revert hdigit; decide)
  all_goals decide

section Values

variable (hopening : IsOpening opening)
include hopening

theorem Passes.ws {ws : List UInt8} (hws : Json.Ws ws) : Passes opening ws :=
  Passes.bytes fun b hb => hopening.other (ws_other (List.all_eq_true.mp hws b hb))

theorem Passes.word (word : String)
    (hword : (Json.bytes word).all (fun b => b != Json.quote && b != Json.openBrace &&
      b != Json.closeBrace && b != Json.openBracket && b != Json.closeBracket) =
        true) : Passes opening (Json.bytes word) := by
  apply Passes.bytes
  intro b hb
  have hall := List.all_eq_true.mp hword b hb
  simp only [Bool.and_eq_true, bne_iff_ne] at hall
  exact hopening.other ⟨hall.1.1.1.1, hall.1.1.1.2, hall.1.1.2, hall.1.2, hall.2⟩

theorem Passes.arr {inner : List UInt8} (h : Passes opening inner) :
    Passes opening (Json.openBracket :: inner ++ [Json.closeBracket]) := by
  rcases hopening with rfl | rfl
  · exact ((Passes.byte (by decide) (by decide) (by decide)).append h).append
      (Passes.byte (by decide) (by decide) (by decide))
  · exact Passes.brackets (by decide) (by decide) (by decide) h

theorem Passes.obj {inner : List UInt8} (h : Passes opening inner) :
    Passes opening (Json.openBrace :: inner ++ [Json.closeBrace]) := by
  rcases hopening with rfl | rfl
  · exact Passes.brackets (by decide) (by decide) (by decide) h
  · exact ((Passes.byte (by decide) (by decide) (by decide)).append h).append
      (Passes.byte (by decide) (by decide) (by decide))

theorem Passes.separator {b : UInt8} (hb : b = Json.colon ∨ b = Json.comma)
    {inner : List UInt8} (h : Passes opening inner) :
    Passes opening (b :: inner) := by
  have hother : b ≠ Json.quote ∧ b ≠ opening ∧ b ≠ closingOf opening := by
    rcases hb with rfl | rfl
    · exact hopening.other (by decide)
    · exact hopening.other (by decide)
  exact (Passes.byte hother.1 hother.2.1 hother.2.2).append h

end Values

mutual

theorem value_passes (hopening : IsOpening opening) {j : Json} {bs : List UInt8} :
    Json.Value j bs -> Passes opening bs
  | .null => Passes.word hopening "null" (by decide)
  | .true => Passes.word hopening "true" (by decide)
  | .false => Passes.word hopening "false" (by decide)
  | .num h => Passes.bytes fun _ hb => hopening.other (numberByte_other (h.bytes hb))
  | .str h => Passes.string h.enclosed
  | .arr h => Passes.arr hopening (elements_passes hopening h)
  | .obj h => Passes.obj hopening (members_passes hopening h)

theorem elements_passes (hopening : IsOpening opening) {js : List Json}
    {bs : List UInt8} : Json.Elements js bs -> Passes opening bs
  | .empty hws => Passes.ws hopening hws
  | .last hws h hws' =>
      ((Passes.ws hopening hws).append (value_passes hopening h)).append
        (Passes.ws hopening hws')
  | .more hws h hws' _ hrest =>
      (((Passes.ws hopening hws).append (value_passes hopening h)).append
        (Passes.ws hopening hws')).append
          (Passes.separator hopening (Or.inr rfl) (elements_passes hopening hrest))

theorem members_passes (hopening : IsOpening opening) {ms : List (Text × Json)}
    {bs : List UInt8} : Json.Members ms bs -> Passes opening bs
  | .empty hws => Passes.ws hopening hws
  | .last hws hkey hws1 hws2 h hws3 =>
      (((((Passes.ws hopening hws).append (Passes.string hkey.enclosed)).append
        (Passes.ws hopening hws1)).append
          (Passes.separator hopening (Or.inl rfl) (Passes.ws hopening hws2))).append
            (value_passes hopening h)).append (Passes.ws hopening hws3)
  | .more hws hkey hws1 hws2 h hws3 _ hrest =>
      ((((((Passes.ws hopening hws).append (Passes.string hkey.enclosed)).append
        (Passes.ws hopening hws1)).append
          (Passes.separator hopening (Or.inl rfl) (Passes.ws hopening hws2))).append
            (value_passes hopening h)).append (Passes.ws hopening hws3)).append
              (Passes.separator hopening (Or.inr rfl) (members_passes hopening hrest))

end

theorem scanNested_brackets {inner : List UInt8} (hopening : IsOpening opening)
    (hinner : Passes opening inner)
    (h : Remains payload i ((opening :: inner ++ [closingOf opening]) ++ rest)) :
    scanNested payload i =
      .ok (some (i + (opening :: inner ++ [closingOf opening]).length)) := by
  have hat : Remains payload i (opening :: (inner ++ closingOf opening :: rest)) := by
    simpa using h
  have hlen := hat.length_eq
  simp only [List.length_cons, List.length_append] at hlen
  have hbytes : opening ≠ Json.quote ∧ closingOf opening ≠ Json.quote ∧
      closingOf opening ≠ opening := by
    rcases hopening with rfl | rfl <;> decide
  unfold scanNested
  rw [hat.index, ok_bind, nestedLoop, if_pos hat.lt, hat.index, ok_bind,
    if_neg hbytes.1, if_pos rfl]
  rcases hinner payload _ (i + 1) (payload.length - i) (0 + 1) hat.next
    (Nat.succ_pos _) (by omega) with ⟨fuel, hfuel, heq⟩
  cases fuel with
  | zero => omega
  | succ fuel =>
      have hend := hat.next.skip
      rw [heq, nestedLoop, if_pos hend.lt, hend.index, ok_bind, if_neg hbytes.2.1,
        if_neg hbytes.2.2, if_pos rfl, sub_of_le (by omega), ok_bind, if_pos rfl]
      simp
      omega

/-!
## Values
-/

def Follows (rest : List UInt8) : Prop :=
  forall b, rest.head? = some b -> isNumberByte b = false

theorem isNumberByte_of {b : UInt8} (h : Json.NumberByte b) :
    isNumberByte b = true := by
  unfold isNumberByte
  rcases h with hdigit | rfl | rfl | rfl | rfl | rfl
  · rw [hdigit]
    rfl
  all_goals decide

theorem scanWord_word {word : String}
    (h : Remains payload i (Json.bytes word ++ rest)) :
    scanWord word payload i = .ok (some (i + (Json.bytes word).length)) := by
  unfold scanWord
  rw [slice_of_le h.le (Nat.le_refl _), ok_bind, List.take_length, h.drop_eq,
    if_pos (List.isPrefixOf_iff_prefix.mpr (List.prefix_append _ _))]
  rfl

theorem scanValue_value {j : Json} {bs : List UInt8} (hvalue : Json.Value j bs)
    (hrest : Follows rest) (h : Remains payload i (bs ++ rest)) :
    scanValue payload i = .ok (some (i + bs.length)) := by
  rcases hvalue.head with ⟨b, bs', hbs, hstart⟩
  have hat : Remains payload i (b :: (bs' ++ rest)) := by
    rw [hbs] at h
    exact h
  unfold scanValue
  rw [hat.getElem?_eq]
  cases hvalue with
  | null =>
      cases hbs
      exact scanWord_word h
  | true =>
      cases hbs
      exact scanWord_word h
  | false =>
      cases hbs
      exact scanWord_word h
  | str hbody =>
      cases hbs
      simp only [if_pos]
      rw [attempt_some (scanString_quoted hbody.enclosed h)]
      rfl
  | arr helements =>
      cases hbs
      exact scanNested_brackets (Or.inr rfl) (elements_passes (Or.inr rfl) helements) h
  | obj hmembers =>
      cases hbs
      exact scanNested_brackets (Or.inl rfl) (members_passes (Or.inl rfl) hmembers) h
  | num hnumber =>
      -- no other kind of value starts like a number
      have hb : b ≠ Json.quote ∧ b ≠ Json.openBrace ∧ b ≠ Json.openBracket ∧
          b ≠ 0x74 ∧ b ≠ 0x66 ∧ b ≠ 0x6E := by
        rcases hstart with hdigit | rfl
        · simp only [Json.isDigit, Bool.and_eq_true, decide_eq_true_eq] at hdigit
          refine ⟨?_, ?_, ?_, ?_, ?_, ?_⟩ <;> (rintro rfl; revert hdigit; decide)
        · decide
      simp only [if_neg hb.1, if_neg hb.2.2.2.1, if_neg hb.2.2.2.2.1,
        if_neg hb.2.2.2.2.2]
      rw [if_neg (by rintro (hcontra | hcontra); exacts [hb.2.1 hcontra, hb.2.2.1 hcontra]),
        h.advanceWhile (fun x hx => isNumberByte_of (hnumber.bytes hx)) hrest, ok_bind,
        if_pos (by rw [hbs, List.length_cons]; omega)]
      rfl

end Renderings

end VoiceClient
end TWA
