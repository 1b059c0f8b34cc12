import TWA.Foundation.Utf8

/-!
# JSON and its renderings

A JSON value and the byte strings that render it.  A rendering is free in the
white space between tokens, in the form of its numbers and in how each character
of a string is written, so rendering is a relation.
-/

namespace TWA
namespace Foundation

/-- A JSON value; a number is kept as it is written. -/
inductive Json where
  | null
  | bool (b : Bool)
  | num (literal : List UInt8)
  | str (text : Text)
  | arr (elements : List Json)
  | obj (members : List (Text × Json))

namespace Json

/-! ## Reading a value -/

def asText : Json -> Option Text
  | .str t => some t
  | _ => none

def asBool : Json -> Option Bool
  | .bool b => some b
  | _ => none

theorem asBool_eq_some {j : Json} {b : Bool} (h : asBool j = some b) :
    j = .bool b := by
  cases j with
  | bool b' =>
      cases h
      rfl
  | _ => cases h

/-! ## Bytes -/

def quote : UInt8 := 0x22
def backslash : UInt8 := 0x5C
def openBrace : UInt8 := 0x7B
def closeBrace : UInt8 := 0x7D
def openBracket : UInt8 := 0x5B
def closeBracket : UInt8 := 0x5D
def colon : UInt8 := 0x3A
def comma : UInt8 := 0x2C

def isWs (b : UInt8) : Bool :=
  b == 0x20 || b == 0x09 || b == 0x0D || b == 0x0A

def isDigit (b : UInt8) : Bool :=
  0x30 ≤ b && b ≤ 0x39

def hexValue (b : UInt8) : Option Nat :=
  if 0x30 ≤ b && b ≤ 0x39 then some (b.toNat - 0x30)
  else if 0x61 ≤ b && b ≤ 0x66 then some (b.toNat - 0x61 + 10)
  else if 0x41 ≤ b && b ≤ 0x46 then some (b.toNat - 0x41 + 10)
  else none

def digitsValue (digits : List UInt8) : Nat :=
  digits.foldl (fun acc d => 10 * acc + (d.toNat - 0x30)) 0

/-- A number that is an unsigned decimal integer literal and fits `u32`. -/
def asU32 : Json -> Option UInt32
  | .num literal =>
      if literal.all isDigit ∧ digitsValue literal < UInt32.size then
        some (UInt32.ofNat (digitsValue literal))
      else
        none
  | _ => none

def bytes (s : String) : List UInt8 :=
  Utf8.encode (Text.lit s)

/-! ## Numbers -/

inductive Whole : List UInt8 -> Prop where
  | zero : Whole [0x30]
  | digits {d : UInt8} {ds : List UInt8} (hd : 0x31 ≤ d ∧ d ≤ 0x39)
      (hds : ds.all isDigit = true) : Whole (d :: ds)

inductive Fraction : List UInt8 -> Prop where
  | none : Fraction []
  | some {ds : List UInt8} (hne : ds ≠ []) (hds : ds.all isDigit = true) :
      Fraction (0x2E :: ds)

inductive Exponent : List UInt8 -> Prop where
  | none : Exponent []
  | some {e : UInt8} {sign ds : List UInt8} (he : e = 0x65 ∨ e = 0x45)
      (hsign : sign = [] ∨ sign = [0x2B] ∨ sign = [0x2D]) (hne : ds ≠ [])
      (hds : ds.all isDigit = true) : Exponent (e :: sign ++ ds)

inductive Number : List UInt8 -> Prop where
  | mk {sign whole fraction exponent : List UInt8}
      (hsign : sign = [] ∨ sign = [0x2D]) (hwhole : Whole whole)
      (hfraction : Fraction fraction) (hexponent : Exponent exponent) :
      Number (sign ++ whole ++ fraction ++ exponent)

/-! ## Strings -/

def Raw (c : Char) : Prop :=
  0x20 ≤ c.toNat ∧ c ≠ '"' ∧ c ≠ '\\'

instance (c : Char) : Decidable (Raw c) :=
  inferInstanceAs (Decidable (0x20 ≤ c.toNat ∧ c ≠ '"' ∧ c ≠ '\\'))

def shortEscape (b : UInt8) : Option Char :=
  if b = 0x22 then some '"'
  else if b = 0x5C then some '\\'
  else if b = 0x2F then some '/'
  else if b = 0x62 then some (Char.ofNat 0x08)
  else if b = 0x66 then some (Char.ofNat 0x0C)
  else if b = 0x6E then some '\n'
  else if b = 0x72 then some '\r'
  else if b = 0x74 then some '\t'
  else none

inductive Hex : List UInt8 -> Nat -> Prop where
  | mk {b0 b1 b2 b3 : UInt8} {v0 v1 v2 v3 : Nat} (h0 : hexValue b0 = some v0)
      (h1 : hexValue b1 = some v1) (h2 : hexValue b2 = some v2)
      (h3 : hexValue b3 = some v3) :
      Hex [b0, b1, b2, b3] (((v0 * 16 + v1) * 16 + v2) * 16 + v3)

/-- The bytes between the quotes of a string. -/
inductive Body : Text -> List UInt8 -> Prop where
  | nil : Body [] []
  | raw {c : Char} {t : Text} {bs : List UInt8} (hc : Raw c) (h : Body t bs) :
      Body (c :: t) (String.utf8EncodeChar c ++ bs)
  | short {c : Char} {b : UInt8} {t : Text} {bs : List UInt8}
      (hb : shortEscape b = some c) (h : Body t bs) :
      Body (c :: t) (backslash :: b :: bs)
  | unicode {c : Char} {ds : List UInt8} {t : Text} {bs : List UInt8}
      (hds : Hex ds c.toNat) (h : Body t bs) :
      Body (c :: t) (backslash :: 0x75 :: ds ++ bs)

/-! ## Values -/

def Ws (bs : List UInt8) : Prop :=
  bs.all isWs = true

mutual

inductive Value : Json -> List UInt8 -> Prop where
  | null : Value .null (bytes "null")
  | true : Value (.bool .true) (bytes "true")
  | false : Value (.bool .false) (bytes "false")
  | num {literal : List UInt8} (h : Number literal) : Value (.num literal) literal
  | str {t : Text} {bs : List UInt8} (h : Body t bs) :
      Value (.str t) (quote :: bs ++ [quote])
  | arr {js : List Json} {bs : List UInt8} (h : Elements js bs) :
      Value (.arr js) (openBracket :: bs ++ [closeBracket])
  | obj {ms : List (Text × Json)} {bs : List UInt8} (h : Members ms bs) :
      Value (.obj ms) (openBrace :: bs ++ [closeBrace])

inductive Elements : List Json -> List UInt8 -> Prop where
  | empty {ws : List UInt8} (hws : Ws ws) : Elements [] ws
  | last {j : Json} {ws bs ws' : List UInt8} (hws : Ws ws) (h : Value j bs)
      (hws' : Ws ws') : Elements [j] (ws ++ bs ++ ws')
  | more {j : Json} {js : List Json} {ws bs ws' rest : List UInt8} (hws : Ws ws)
      (h : Value j bs) (hws' : Ws ws') (hne : js ≠ []) (hrest : Elements js rest) :
      Elements (j :: js) (ws ++ bs ++ ws' ++ comma :: rest)

inductive Members : List (Text × Json) -> List UInt8 -> Prop where
  | empty {ws : List UInt8} (hws : Ws ws) : Members [] ws
  | last {k : Text} {j : Json} {ws key ws1 ws2 bs ws3 : List UInt8} (hws : Ws ws)
      (hkey : Body k key) (hws1 : Ws ws1) (hws2 : Ws ws2) (h : Value j bs)
      (hws3 : Ws ws3) :
      Members [(k, j)] (ws ++ (quote :: key ++ [quote]) ++ ws1 ++
        colon :: ws2 ++ bs ++ ws3)
  | more {k : Text} {j : Json} {ms : List (Text × Json)}
      {ws key ws1 ws2 bs ws3 rest : List UInt8} (hws : Ws ws) (hkey : Body k key)
      (hws1 : Ws ws1) (hws2 : Ws ws2) (h : Value j bs) (hws3 : Ws ws3)
      (hne : ms ≠ []) (hrest : Members ms rest) :
      Members ((k, j) :: ms) (ws ++ (quote :: key ++ [quote]) ++ ws1 ++
        colon :: ws2 ++ bs ++ ws3 ++ comma :: rest)

end

/-!
## The bytes of a rendering
-/

/-- Every quote and every backslash belongs to an escape. -/
inductive Enclosed : List UInt8 -> Prop where
  | nil : Enclosed []
  | plain {b : UInt8} {bs : List UInt8} (hquote : b ≠ quote)
      (hback : b ≠ backslash) (h : Enclosed bs) : Enclosed (b :: bs)
  | escape {b : UInt8} {bs : List UInt8} (h : Enclosed bs) :
      Enclosed (backslash :: b :: bs)

theorem Enclosed.append_plain {front bs : List UInt8}
    (hfront : forall b, b ∈ front -> b ≠ quote ∧ b ≠ backslash)
    (h : Enclosed bs) : Enclosed (front ++ bs) := by
  induction front with
  | nil => exact h
  | cons b front ih =>
      have hb := hfront b List.mem_cons_self
      exact Enclosed.plain hb.1 hb.2
        (ih fun x hx => hfront x (List.mem_cons_of_mem b hx))

theorem Raw.bytes {c : Char} (hc : Raw c) {b : UInt8}
    (hb : b ∈ String.utf8EncodeChar c) : b ≠ quote ∧ b ≠ backslash := by
  by_cases hascii : c.toNat < 128
  · rw [Utf8.encodeChar_of_ascii hascii, List.mem_singleton] at hb
    have hnat : b.toNat = c.toNat := by
      rw [hb]
      exact Utf8.toNat_byte (by omega)
    have hchar (d : Char) (hd : c.toNat = d.toNat) : c = d := by
      rw [← Char.ofNat_toNat c, hd, Char.ofNat_toNat]
    constructor
    · intro heq
      subst heq
      exact hc.2.1 (hchar '"' hnat.symm)
    · intro heq
      subst heq
      exact hc.2.2 (hchar '\\' hnat.symm)
  · have hhigh := Utf8.encodeChar_high hascii hb
    constructor
    · intro heq
      subst heq
      exact absurd hhigh (by decide)
    · intro heq
      subst heq
      exact absurd hhigh (by decide)

theorem Raw.encode_bytes {t : Text} (ht : forall c, c ∈ t -> Raw c) {b : UInt8}
    (hb : b ∈ Utf8.encode t) : b ≠ quote ∧ b ≠ backslash := by
  rcases List.mem_flatMap.mp hb with ⟨c, hc, hbc⟩
  exact (ht c hc).bytes hbc

theorem Raw.encode_enclosed {t : Text} (ht : forall c, c ∈ t -> Raw c) :
    Enclosed (Utf8.encode t) := by
  have h := Enclosed.append_plain (fun b hb => Raw.encode_bytes ht hb) Enclosed.nil
  rwa [List.append_nil] at h

theorem hexValue_lt {b : UInt8} {d : Nat} (h : hexValue b = some d) :
    d < 16 := by
  unfold hexValue at h
  simp only [Bool.and_eq_true, decide_eq_true_eq, UInt8.le_iff_toNat_le] at h
  split at h
  · rename_i hrange
    cases h
    have hle : b.toNat ≤ 0x39 := hrange.2
    omega
  · split at h
    · rename_i hrange
      cases h
      have hle : b.toNat ≤ 0x66 := hrange.2
      omega
    · split at h
      · rename_i hrange
        cases h
        have hle : b.toNat ≤ 0x46 := hrange.2
        omega
      · cases h

theorem hexValue_plain {b : UInt8} {v : Nat} (h : hexValue b = some v) :
    b ≠ quote ∧ b ≠ backslash := by
  constructor
  · intro heq
    subst heq
    have hnone : hexValue quote = none := by decide
    rw [hnone] at h
    cases h
  · intro heq
    subst heq
    have hnone : hexValue backslash = none := by decide
    rw [hnone] at h
    cases h

theorem Hex.plain {ds : List UInt8} {v : Nat} (h : Hex ds v) {b : UInt8}
    (hb : b ∈ ds) : b ≠ quote ∧ b ≠ backslash := by
  cases h with
  | mk h0 h1 h2 h3 =>
      simp only [List.mem_cons, List.not_mem_nil, or_false] at hb
      rcases hb with rfl | rfl | rfl | rfl
      · exact hexValue_plain h0
      · exact hexValue_plain h1
      · exact hexValue_plain h2
      · exact hexValue_plain h3

theorem Hex.length_eq {ds : List UInt8} {v : Nat} (h : Hex ds v) : ds.length = 4 := by
  cases h
  rfl

theorem Body.enclosed {t : Text} {bs : List UInt8} (h : Body t bs) :
    Enclosed bs := by
  induction h with
  | nil => exact Enclosed.nil
  | raw hc _ ih => exact Enclosed.append_plain (fun _ hb => hc.bytes hb) ih
  | short _ _ ih => exact Enclosed.escape ih
  | unicode hds _ ih =>
      exact Enclosed.escape (Enclosed.append_plain (fun _ hb => hds.plain hb) ih)

theorem Body.run {t : Text} {bs : List UInt8} (h : Body t bs) :
    exists front rest bs', t = front ++ rest ∧ bs = Utf8.encode front ++ bs' ∧
      (forall c, c ∈ front -> Raw c) ∧ Body rest bs' ∧
      forall b, bs'.head? = some b -> b = backslash := by
  induction h with
  | nil =>
      refine ⟨[], [], [], rfl, rfl, ?_, Body.nil, ?_⟩
      · intro c hc
        cases hc
      · intro b hb
        cases hb
  | @raw c t bs hc h ih =>
      rcases ih with ⟨front, rest, bs', ht, hbs, hraw, hbody, hhead⟩
      refine ⟨c :: front, rest, bs', ?_, ?_, ?_, hbody, hhead⟩
      · rw [ht, List.cons_append]
      · rw [hbs, Utf8.encode_cons, List.append_assoc]
      · intro x hx
        rcases List.mem_cons.mp hx with rfl | hx
        · exact hc
        · exact hraw x hx
  | @short c b t bs hb h _ =>
      refine ⟨[], c :: t, backslash :: b :: bs, rfl, rfl, ?_, Body.short hb h, ?_⟩
      · intro x hx
        cases hx
      · intro x hx
        exact (Option.some.inj hx).symm
  | @unicode c ds t bs hds h _ =>
      refine ⟨[], c :: t, backslash :: 0x75 :: ds ++ bs, rfl, rfl, ?_,
        Body.unicode hds h, ?_⟩
      · intro x hx
        cases hx
      · intro x hx
        exact (Option.some.inj hx).symm

def NumberByte (b : UInt8) : Prop :=
  isDigit b = true ∨ b = 0x2D ∨ b = 0x2B ∨ b = 0x2E ∨ b = 0x65 ∨ b = 0x45

theorem digits_bytes {ds : List UInt8} (h : ds.all isDigit = true) {b : UInt8}
    (hb : b ∈ ds) : NumberByte b :=
  Or.inl (List.all_eq_true.mp h b hb)

theorem isDigit_of_range {d : UInt8} (h : 0x31 ≤ d ∧ d ≤ 0x39) :
    isDigit d = true := by
  simp only [UInt8.le_iff_toNat_le, isDigit, Bool.and_eq_true,
    decide_eq_true_eq] at h ⊢
  exact ⟨Nat.le_of_succ_le h.1, h.2⟩

theorem Whole.digits_all {ds : List UInt8} (h : Whole ds) :
    ds.all isDigit = true := by
  cases h with
  | zero => decide
  | digits hd hds =>
      rw [List.all_cons, isDigit_of_range hd, hds]
      rfl

theorem Number.bytes {literal : List UInt8} (h : Number literal) {b : UInt8}
    (hb : b ∈ literal) : NumberByte b := by
  cases h with
  | mk hsign hwhole hfraction hexponent =>
      simp only [List.mem_append] at hb
      rcases hb with ((hb | hb) | hb) | hb
      · rcases hsign with rfl | rfl
        · cases hb
        · exact Or.inr (Or.inl (List.mem_singleton.mp hb))
      · exact digits_bytes hwhole.digits_all hb
      · cases hfraction with
        | none => cases hb
        | some _ hds =>
            rcases List.mem_cons.mp hb with rfl | hb
            · exact Or.inr (Or.inr (Or.inr (Or.inl rfl)))
            · exact digits_bytes hds hb
      · cases hexponent with
        | none => cases hb
        | some he hexpsign _ hds =>
            simp only [List.cons_append, List.mem_cons, List.mem_append] at hb
            rcases hb with rfl | hb | hb
            · exact Or.inr (Or.inr (Or.inr (Or.inr he)))
            · rcases hexpsign with rfl | rfl | rfl
              · cases hb
              · exact Or.inr (Or.inr (Or.inl (List.mem_singleton.mp hb)))
              · exact Or.inr (Or.inl (List.mem_singleton.mp hb))
            · exact digits_bytes hds hb

theorem Number.head {literal : List UInt8} (h : Number literal) :
    exists b rest, literal = b :: rest ∧ (isDigit b = true ∨ b = 0x2D) := by
  cases h with
  | mk hsign hwhole hfraction hexponent =>
      rcases hsign with rfl | rfl
      · cases hwhole with
        | zero => exact ⟨_, _, rfl, Or.inl rfl⟩
        | digits hd hds => exact ⟨_, _, rfl, Or.inl (isDigit_of_range hd)⟩
      · exact ⟨_, _, rfl, Or.inr rfl⟩

def StartsWith : Json -> UInt8 -> Prop
  | .null, b => b = 0x6E
  | .bool .true, b => b = 0x74
  | .bool .false, b => b = 0x66
  | .num _, b => isDigit b = true ∨ b = 0x2D
  | .str _, b => b = quote
  | .arr _, b => b = openBracket
  | .obj _, b => b = openBrace

theorem Value.head {j : Json} {bs : List UInt8} (h : Value j bs) :
    exists b rest, bs = b :: rest ∧ StartsWith j b := by
  cases h with
  | null => exact ⟨_, _, rfl, rfl⟩
  | true => exact ⟨_, _, rfl, rfl⟩
  | false => exact ⟨_, _, rfl, rfl⟩
  | num hnumber => exact hnumber.head
  | str _ => exact ⟨_, _, rfl, rfl⟩
  | arr _ => exact ⟨_, _, rfl, rfl⟩
  | obj _ => exact ⟨_, _, rfl, rfl⟩

theorem isWs_of_digit {b : UInt8} (h : isDigit b = true) : isWs b = false := by
  simp only [isDigit, Bool.and_eq_true, decide_eq_true_eq,
    UInt8.le_iff_toNat_le] at h
  simp only [isWs, Bool.or_eq_false_iff, beq_eq_false_iff_ne, ne_eq,
    ← UInt8.toNat_inj]
  have hlow : 48 ≤ b.toNat := h.1
  refine ⟨⟨⟨?_, ?_⟩, ?_⟩, ?_⟩ <;> (intro hcontra; rw [hcontra] at hlow; revert hlow; decide)

theorem StartsWith.not_ws {j : Json} {b : UInt8} (h : StartsWith j b) :
    isWs b = false := by
  match j, h with
  | .null, h => rw [show b = 0x6E from h]; decide
  | .bool .true, h => rw [show b = 0x74 from h]; decide
  | .bool .false, h => rw [show b = 0x66 from h]; decide
  | .num _, h =>
      rcases h with hdigit | hminus
      · exact isWs_of_digit hdigit
      · rw [hminus]
        decide
  | .str _, h => rw [show b = quote from h]; decide
  | .arr _, h => rw [show b = openBracket from h]; decide
  | .obj _, h => rw [show b = openBrace from h]; decide

theorem StartsWith.asText_eq_none {j : Json} {b : UInt8} (h : StartsWith j b)
    (hb : b ≠ quote) : asText j = none := by
  cases j with
  | str t => exact absurd h hb
  | _ => rfl

theorem StartsWith.asU32_eq_none {j : Json} {b : UInt8} (h : StartsWith j b)
    (hb : ¬ (isDigit b = true ∨ b = 0x2D)) : asU32 j = none := by
  cases j with
  | num literal => exact absurd h hb
  | _ => rfl

theorem StartsWith.asBool_cases {j : Json} {b : UInt8} (h : StartsWith j b) :
    asBool j = some true ∨ asBool j = some false ∨
      (asBool j = none ∧ b ≠ 0x74 ∧ b ≠ 0x66) := by
  have hother (hnone : asBool j = none) (hb : b ≠ 0x74 ∧ b ≠ 0x66) :
      asBool j = some true ∨ asBool j = some false ∨
        (asBool j = none ∧ b ≠ 0x74 ∧ b ≠ 0x66) :=
    Or.inr (Or.inr ⟨hnone, hb⟩)
  match j, h with
  | .bool .true, _ => exact Or.inl rfl
  | .bool .false, _ => exact Or.inr (Or.inl rfl)
  | .null, h => exact hother rfl (by rw [show b = 0x6E from h]; decide)
  | .str _, h => exact hother rfl (by rw [show b = quote from h]; decide)
  | .arr _, h => exact hother rfl (by rw [show b = openBracket from h]; decide)
  | .obj _, h => exact hother rfl (by rw [show b = openBrace from h]; decide)
  | .num _, h =>
      apply hother rfl
      rcases h with hdigit | hminus
      · constructor
        · intro heq
          subst heq
          revert hdigit
          decide
        · intro heq
          subst heq
          revert hdigit
          decide
      · rw [hminus]
        decide

theorem NumberByte.ascii {b : UInt8} (h : NumberByte b) :
    b.toNat < 128 ∧ Text.isWhitespace (Utf8.char b) = false := by
  rcases h with hdigit | rfl | rfl | rfl | rfl | rfl
  · simp only [isDigit, Bool.and_eq_true, decide_eq_true_eq,
      UInt8.le_iff_toNat_le] at hdigit
    have hlow : 0x30 ≤ b.toNat := hdigit.1
    have hhigh : b.toNat ≤ 0x39 := hdigit.2
    have hascii : b.toNat < 128 := by omega
    refine ⟨hascii, ?_⟩
    simp only [Text.isWhitespace, Utf8.toNat_char hascii, Bool.or_eq_false_iff,
      Bool.and_eq_false_iff, decide_eq_false_iff_not, beq_eq_false_iff_ne]
    omega
  all_goals decide

theorem isDigit_char {b : UInt8} (h : b.toNat < 128) :
    Text.isDigit (Utf8.char b) = isDigit b := by
  simp only [Text.isDigit, isDigit, Utf8.toNat_char h, UInt8.le_iff_toNat_le]
  rfl

theorem digitValue_char {b : UInt8} (h : b.toNat < 128) :
    Text.digitValue (Utf8.char b) = b.toNat - 0x30 := by
  rw [Text.digitValue, Utf8.toNat_char h]
  rfl

theorem decimal_chars {bs : List UInt8} (h : forall b, b ∈ bs -> b.toNat < 128) :
    Text.decimal (bs.map Utf8.char) = digitsValue bs := by
  unfold Text.decimal digitsValue
  generalize 0 = acc
  induction bs generalizing acc with
  | nil => rfl
  | cons b bs ih =>
      rw [List.map_cons, List.foldl_cons, List.foldl_cons,
        digitValue_char (h b List.mem_cons_self)]
      exact ih (fun x hx => h x (List.mem_cons_of_mem b hx)) _

/-- Reading a number literal as a `u32` gives the number it is, if it is one. -/
theorem Number.parseU32_eq {literal : List UInt8} (h : Number literal) :
    Text.parseU32 (Text.trim (literal.map Utf8.char)) = asU32 (.num literal) := by
  have hascii (b : UInt8) (hb : b ∈ literal) : b.toNat < 128 :=
    (h.bytes hb).ascii.1
  have htrim : Text.trim (literal.map Utf8.char) = literal.map Utf8.char := by
    apply Text.trim_of_none
    intro c hc
    rcases List.mem_map.mp hc with ⟨b, hb, rfl⟩
    exact (h.bytes hb).ascii.2
  have hall : (literal.map Utf8.char).all Text.isDigit = literal.all isDigit := by
    rw [Bool.eq_iff_iff, List.all_map, List.all_eq_true, List.all_eq_true]
    constructor
    · intro hdigits b hb
      rw [← isDigit_char (hascii b hb)]
      exact hdigits b hb
    · intro hdigits b hb
      rw [Function.comp_apply, isDigit_char (hascii b hb)]
      exact hdigits b hb
  rcases h.head with ⟨b, rest, hb, hstart⟩
  have hsign : (literal.map Utf8.char).head? ≠ some '+' := by
    rw [hb, List.map_cons, List.head?_cons]
    intro hcontra
    have hnat := Utf8.toNat_char (hascii b (by rw [hb]; exact List.mem_cons_self))
    rw [Option.some.inj hcontra] at hnat
    have hplus : b = 0x2B := UInt8.toNat_inj.mp hnat.symm
    rw [hplus] at hstart
    revert hstart
    decide
  rw [htrim, Text.parseU32_eq (by rw [hb]; simp) hsign, hall, decimal_chars hascii]
  rfl

/-! ## Decimal literals -/

def decimalBytes (n : Nat) : List UInt8 :=
  Utf8.encode (Text.lit (toString n))

theorem decimalBytes_eq (n : Nat) :
    decimalBytes n = Utf8.encode (Nat.toDigits 10 n) := by
  unfold decimalBytes Text.lit
  rw [Nat.toString_eq_repr, Nat.toList_repr]

theorem decimalBytes_digit {d : Nat} (h : d < 10) :
    decimalBytes d = [UInt8.ofNat (0x30 + d)] := by
  have hall : forall i : Fin 10,
      Utf8.encode [Nat.digitChar i] = [UInt8.ofNat (0x30 + i)] := by
    decide
  rw [decimalBytes_eq, Nat.toDigits_of_lt_base h]
  exact hall ⟨d, h⟩

theorem decimalBytes_append {n d : Nat} (hn : 0 < n) (hd : d < 10) :
    decimalBytes (10 * n + d) = decimalBytes n ++ decimalBytes d := by
  rw [decimalBytes_eq, decimalBytes_eq, decimalBytes_eq,
    ← Nat.toDigits_append_toDigits (by decide) hn hd, Utf8.encode_append]

theorem digit_byte {d : Nat} (h : d < 10) :
    isDigit (UInt8.ofNat (0x30 + d)) = true ∧ (UInt8.ofNat (0x30 + d)).toNat - 0x30 = d := by
  have hall : forall i : Fin 10, isDigit (UInt8.ofNat (0x30 + i)) = true ∧
      (UInt8.ofNat (0x30 + i)).toNat - 0x30 = i := by
    decide
  exact hall ⟨d, h⟩

theorem digitsValue_decimal (n : Nat) : digitsValue (decimalBytes n) = n := by
  induction n using Nat.base_induction 10 (by decide) with
  | single m hm =>
      rw [decimalBytes_digit hm]
      change 10 * 0 + ((UInt8.ofNat (0x30 + m)).toNat - 0x30) = m
      rw [(digit_byte hm).2]
      omega
  | digit m k hk hm ih =>
      rw [decimalBytes_append hm hk, decimalBytes_digit hk]
      unfold digitsValue at ih ⊢
      rw [List.foldl_append, ih]
      change 10 * m + ((UInt8.ofNat (0x30 + k)).toNat - 0x30) = 10 * m + k
      rw [(digit_byte hk).2]

theorem whole_decimal (n : Nat) : Whole (decimalBytes n) := by
  induction n using Nat.base_induction 10 (by decide) with
  | single m hm =>
      rw [decimalBytes_digit hm]
      cases m with
      | zero => exact Whole.zero
      | succ m =>
          have hall : forall i : Fin 9, 0x31 ≤ UInt8.ofNat (0x30 + (i + 1)) ∧
              UInt8.ofNat (0x30 + (i + 1)) ≤ 0x39 := by
            decide
          exact Whole.digits (hall ⟨m, by omega⟩) rfl
  | digit m k hk hm ih =>
      rw [decimalBytes_append hm hk, decimalBytes_digit hk]
      have hvalue := digitsValue_decimal m
      generalize decimalBytes m = ds at ih hvalue
      cases ih with
      | zero =>
          have hzero : digitsValue [0x30] = 0 := rfl
          omega
      | @digits d ds hd hds =>
          have hall : (ds ++ [UInt8.ofNat (0x30 + k)]).all isDigit = true := by
            rw [List.all_append, hds, List.all_cons, (digit_byte hk).1]
            rfl
          exact Whole.digits hd hall

theorem number_decimal (n : Nat) : Number (decimalBytes n) := by
  have hunsigned : ([] : List UInt8) = [] ∨ ([] : List UInt8) = [0x2D] := Or.inl rfl
  have h := Number.mk hunsigned (whole_decimal n) Fraction.none Exponent.none
  simpa using h

/-- A printed `u32` reads back. -/
theorem asU32_decimal (n : UInt32) : asU32 (.num (decimalBytes n.toNat)) = some n := by
  have hdigits := (whole_decimal n.toNat).digits_all
  have hvalue := digitsValue_decimal n.toNat
  unfold asU32
  simp only
  rw [if_pos ⟨hdigits, by rw [hvalue]; exact n.toNat_lt⟩, hvalue, UInt32.ofNat_toNat]

end Json
end Foundation
end TWA
