import TWA.Foundation.Exec

/-!
# Parsers that keep a position

A parser reads symbols from a position in a buffer that does not change.  It may
fail, and then the position stays where the failure left it; it may also fault.
Three kinds of statement are made about a parser: what it does on every buffer,
what it returns on a buffer that goes on with a given token, and what the symbols
spell that it has read.  Each comes with rules for the ways of building a parser.
-/

namespace TWA
namespace Foundation

structure Cursor (symbol : Type) where
  pos : Nat
  buffer : List symbol
  deriving DecidableEq, Repr

namespace Cursor

variable {symbol : Type}

def start (buffer : List symbol) : Cursor symbol :=
  { pos := 0, buffer := buffer }

def advance (n : Nat) (c : Cursor symbol) : Cursor symbol :=
  { c with pos := c.pos + n }

def rest (c : Cursor symbol) : List symbol :=
  c.buffer.drop c.pos

def Valid (c : Cursor symbol) : Prop :=
  c.pos ≤ c.buffer.length

@[simp] theorem advance_advance (m n : Nat) (c : Cursor symbol) :
    (c.advance m).advance n = c.advance (m + n) := by
  unfold advance
  simp only [Nat.add_assoc]

@[simp] theorem advance_buffer (n : Nat) (c : Cursor symbol) :
    (c.advance n).buffer = c.buffer := rfl

@[simp] theorem advance_pos (n : Nat) (c : Cursor symbol) :
    (c.advance n).pos = c.pos + n := rfl

theorem start_valid (buffer : List symbol) : (start buffer).Valid :=
  Nat.zero_le _

@[simp] theorem start_rest (buffer : List symbol) : (start buffer).rest = buffer := rfl

theorem length_rest (c : Cursor symbol) :
    c.rest.length = c.buffer.length - c.pos := by
  unfold rest
  rw [List.length_drop]

theorem rest_advance {c : Cursor symbol} {tok more : List symbol}
    (h : c.rest = tok ++ more) : (c.advance tok.length).rest = more := by
  unfold rest advance at *
  rw [← List.drop_drop, h, List.drop_left]

theorem fits_of_rest {c : Cursor symbol} {tok more : List symbol} (hc : c.Valid)
    (h : c.rest = tok ++ more) : c.pos + tok.length ≤ c.buffer.length := by
  have hlen := congrArg List.length h
  rw [length_rest, List.length_append] at hlen
  unfold Valid at hc
  omega

theorem valid_behind {c : Cursor symbol} {tok more : List symbol} (hc : c.Valid)
    (h : c.rest = tok ++ more) : (c.advance tok.length).Valid :=
  fits_of_rest hc h

end Cursor

/-- The result of a parser, or its failure, with the position it has come to. -/
def Parser (symbol err result : Type) : Type :=
  Cursor symbol -> Exec (Except err result × Cursor symbol)

namespace Parser

open Exec

section Building

variable {symbol err err' alpha beta : Type}

def succeed (a : alpha) : Parser symbol err alpha :=
  fun c => .ok (.ok a, c)

def fail (e : err) : Parser symbol err alpha :=
  fun c => .ok (.error e, c)

def andThen (p : Parser symbol err alpha) (f : alpha -> Parser symbol err beta) :
    Parser symbol err beta := fun c => do
  match <- p c with
  | (.ok a, c) => f a c
  | (.error e, c) => pure (.error e, c)

instance : Monad (Parser symbol err) where
  pure := succeed
  bind := andThen

def mapError (f : err -> err') (p : Parser symbol err alpha) : Parser symbol err' alpha :=
  fun c => do
    match <- p c with
    | (.ok a, c) => pure (.ok a, c)
    | (.error e, c) => pure (.error (f e), c)

/-- A failure is a value here, and the parser goes on behind it. -/
def observe (p : Parser symbol err alpha) : Parser symbol err' (Except err alpha) :=
  fun c => do
    let (r, c) <- p c
    pure (.ok r, c)

def ofExcept (r : Except err alpha) : Parser symbol err alpha :=
  fun c => .ok (r, c)

/-- Parse another buffer; the position in this one stays. -/
def within (sub : Cursor symbol) (p : Parser symbol err alpha) :
    Parser symbol err (alpha × Cursor symbol) := fun c => do
  match <- p sub with
  | (.ok a, sub) => pure (.ok (a, sub), c)
  | (.error e, _) => pure (.error e, c)

def loop (body : alpha -> Parser symbol err alpha) :
    Nat -> alpha -> Parser symbol err alpha
  | 0, _ => fun _ => .error .diverges
  | fuel + 1, a => fun c =>
      if c.pos = c.buffer.length then
        .ok (.ok a, c)
      else
        andThen (body a) (loop body fuel) c

def whileNonempty (body : alpha -> Parser symbol err alpha) (a : alpha) :
    Parser symbol err alpha :=
  fun c => loop body (c.buffer.length - c.pos + 1) a c

end Building

/-!
## On every buffer
-/

/-- On every buffer the parser ends without a fault and within the buffer; when it
returns a result it has read at least `n` symbols, and the result satisfies `Q`. -/
def Safe {symbol err alpha : Type} (p : Parser symbol err alpha) (n : Nat)
    (Q : alpha -> Prop) : Prop :=
  forall c : Cursor symbol, c.Valid -> exists r k, p c = .ok (r, c.advance k) ∧
    c.pos + k ≤ c.buffer.length ∧ forall a, r = .ok a -> n ≤ k ∧ Q a

namespace Safe

variable {symbol err err' alpha beta : Type} {n m : Nat} {Q : alpha -> Prop}
  {R : beta -> Prop} {p : Parser symbol err alpha} {f : alpha -> Parser symbol err beta}

theorem mono {Q' : alpha -> Prop} (h : p.Safe n Q) (hle : m ≤ n)
    (hQ : forall a, Q a -> Q' a) : p.Safe m Q' := by
  intro c hc
  rcases h c hc with ⟨r, k, hp, hk, hr⟩
  refine ⟨r, k, hp, hk, ?_⟩
  intro a ha
  rcases hr a ha with ⟨hn, hq⟩
  exact ⟨Nat.le_trans hle hn, hQ a hq⟩

theorem trivial (h : p.Safe n Q) : p.Safe n (fun _ => True) :=
  h.mono (Nat.le_refl n) (fun _ _ => True.intro)

theorem succeed {a : alpha} (h : Q a) :
    (Parser.succeed a : Parser symbol err alpha).Safe 0 Q := by
  intro c hc
  refine ⟨.ok a, 0, rfl, hc, ?_⟩
  intro b hb
  cases hb
  exact ⟨Nat.le_refl 0, h⟩

theorem fail (e : err) : (Parser.fail e : Parser symbol err alpha).Safe n Q := by
  intro c hc
  exact ⟨.error e, 0, rfl, hc, fun a ha => by cases ha⟩

theorem andThen (hp : p.Safe n Q) (hf : forall a, Q a -> (f a).Safe m R) :
    (Parser.andThen p f).Safe (n + m) R := by
  intro c hc
  rcases hp c hc with ⟨r, k, hrun, hk, hr⟩
  unfold Parser.andThen
  cases r with
  | error e =>
      refine ⟨.error e, k, ?_, hk, fun b hb => by cases hb⟩
      rw [hrun, ok_bind]
      rfl
  | ok a =>
      rcases hr a rfl with ⟨hn, hq⟩
      rcases hf a hq (c.advance k) hk with ⟨r', k', hrun', hk', hr'⟩
      simp only [Cursor.advance_pos, Cursor.advance_buffer] at hk'
      refine ⟨r', k + k', ?_, by omega, ?_⟩
      · rw [hrun, ok_bind]
        simp only [hrun', Cursor.advance_advance]
      · intro b hb
        rcases hr' b hb with ⟨hm, hR⟩
        exact ⟨Nat.add_le_add hn hm, hR⟩

theorem bind (hp : p.Safe n Q) (hf : forall a, Q a -> (f a).Safe m R) :
    (p >>= f).Safe (n + m) R :=
  andThen hp hf

theorem mapError (hp : p.Safe n Q) (g : err -> err') :
    (Parser.mapError g p).Safe n Q := by
  intro c hc
  rcases hp c hc with ⟨r, k, hrun, hk, hr⟩
  unfold Parser.mapError
  cases r with
  | error e =>
      refine ⟨.error (g e), k, ?_, hk, fun b hb => by cases hb⟩
      rw [hrun, ok_bind]
      rfl
  | ok a =>
      refine ⟨.ok a, k, ?_, hk, ?_⟩
      · rw [hrun, ok_bind]
        rfl
      · intro b hb
        cases hb
        exact hr a rfl

theorem observe (hp : p.Safe n Q) :
    (Parser.observe p : Parser symbol err' (Except err alpha)).Safe 0
      (fun _ => True) := by
  intro c hc
  rcases hp c hc with ⟨r, k, hrun, hk, _⟩
  refine ⟨.ok r, k, ?_, hk, fun _ _ => ⟨Nat.zero_le k, True.intro⟩⟩
  unfold Parser.observe
  rw [hrun, ok_bind]
  rfl

theorem within {sub : Cursor symbol} (hsub : sub.Valid) (hp : p.Safe n Q) :
    (Parser.within sub p).Safe 0 (fun a => Q a.1) := by
  intro c hc
  rcases hp sub hsub with ⟨r, k, hrun, hk, hr⟩
  unfold Parser.within
  cases r with
  | error e =>
      refine ⟨.error e, 0, ?_, hc, fun b hb => by cases hb⟩
      rw [hrun, ok_bind]
      rfl
  | ok a =>
      refine ⟨.ok (a, sub.advance k), 0, ?_, hc, ?_⟩
      · rw [hrun, ok_bind]
        rfl
      · intro b hb
        cases hb
        exact ⟨Nat.le_refl 0, (hr a rfl).2⟩

theorem ite {b : Prop} [Decidable b] {p q : Parser symbol err alpha}
    (hp : b -> p.Safe n Q) (hq : ¬ b -> q.Safe n Q) :
    (if b then p else q).Safe n Q := by
  by_cases hb : b
  · rw [if_pos hb]
    exact hp hb
  · rw [if_neg hb]
    exact hq hb

/-- A body that always reads something ends its loop, and what it preserves holds of the
result. -/
theorem loop {body : alpha -> Parser symbol err alpha}
    (hbody : forall a, Q a -> (body a).Safe 1 Q) (fuel : Nat) {a : alpha} (ha : Q a)
    (c : Cursor symbol) (hc : c.Valid) (hfuel : c.buffer.length - c.pos < fuel) :
    exists r k, Parser.loop body fuel a c = .ok (r, c.advance k) ∧
      c.pos + k ≤ c.buffer.length ∧ forall b, r = .ok b -> Q b := by
  induction fuel generalizing a c with
  | zero => exact absurd hfuel (Nat.not_lt_zero _)
  | succ fuel ih =>
      unfold Parser.loop
      by_cases hend : c.pos = c.buffer.length
      · rw [if_pos hend]
        refine ⟨.ok a, 0, rfl, hc, ?_⟩
        intro b hb
        cases hb
        exact ha
      · rw [if_neg hend]
        rcases hbody a ha c hc with ⟨r, k, hrun, hk, hr⟩
        unfold Parser.andThen
        cases r with
        | error e =>
            refine ⟨.error e, k, ?_, hk, fun b hb => by cases hb⟩
            rw [hrun, ok_bind]
            rfl
        | ok a' =>
            rcases hr a' rfl with ⟨hone, ha'⟩
            have hshort : (c.advance k).buffer.length - (c.advance k).pos < fuel := by
              simp only [Cursor.advance_buffer, Cursor.advance_pos]
              unfold Cursor.Valid at hc
              omega
            rcases ih ha' (c.advance k) hk hshort with ⟨r', k', hrun', hk', hr'⟩
            simp only [Cursor.advance_pos, Cursor.advance_buffer] at hk'
            refine ⟨r', k + k', ?_, by omega, hr'⟩
            rw [hrun, ok_bind]
            simp only [hrun', Cursor.advance_advance]

theorem whileNonempty {body : alpha -> Parser symbol err alpha}
    (hbody : forall a, Q a -> (body a).Safe 1 Q) {a : alpha} (ha : Q a) :
    (Parser.whileNonempty body a).Safe 0 Q := by
  intro c hc
  rcases loop hbody (c.buffer.length - c.pos + 1) ha c hc (Nat.lt_succ_self _) with
    ⟨r, k, hrun, hk, hr⟩
  exact ⟨r, k, hrun, hk, fun b hb => ⟨Nat.zero_le k, hr b hb⟩⟩

end Safe

def FailsOnly {symbol err alpha : Type} (p : Parser symbol err alpha)
    (E : err -> Prop) : Prop :=
  forall c e c', p c = .ok (.error e, c') -> E e

namespace FailsOnly

variable {symbol err err' alpha beta : Type} {E : err -> Prop} {p : Parser symbol err alpha}
  {f : alpha -> Parser symbol err beta}

theorem succeed (a : alpha) : (Parser.succeed a : Parser symbol err alpha).FailsOnly E := by
  intro c e c' h
  cases h

theorem andThen (hp : p.FailsOnly E) (hf : forall a, (f a).FailsOnly E) :
    (Parser.andThen p f).FailsOnly E := by
  intro c e c' h
  unfold Parser.andThen at h
  rcases bind_eq_ok.mp h with ⟨⟨r, c1⟩, hrun, hrest⟩
  cases r with
  | ok a => exact hf a c1 e c' hrest
  | error e1 =>
      cases hrest
      exact hp c e _ hrun

theorem bind (hp : p.FailsOnly E) (hf : forall a, (f a).FailsOnly E) :
    (p >>= f).FailsOnly E :=
  andThen hp hf

theorem mapError (g : err' -> err) (p : Parser symbol err' alpha)
    (h : forall e, E (g e)) : (Parser.mapError g p).FailsOnly E := by
  intro c e c' hrun
  unfold Parser.mapError at hrun
  rcases bind_eq_ok.mp hrun with ⟨⟨r, c1⟩, _, hrest⟩
  cases r with
  | ok a => cases hrest
  | error e1 =>
      cases hrest
      exact h e1

theorem observe (p : Parser symbol err' alpha) :
    (Parser.observe p : Parser symbol err (Except err' alpha)).FailsOnly E := by
  intro c e c' hrun
  unfold Parser.observe at hrun
  rcases bind_eq_ok.mp hrun with ⟨⟨r, c1⟩, _, hrest⟩
  cases hrest

end FailsOnly

/-!
## On a buffer that goes on with a token
-/

/-- Whatever follows the token, the parser reads just the token and returns `a`. -/
def Reads {symbol err alpha : Type} (p : Parser symbol err alpha) (tok : List symbol)
    (a : alpha) : Prop :=
  forall (c : Cursor symbol) (more : List symbol), c.Valid -> c.rest = tok ++ more ->
    p c = .ok (.ok a, c.advance tok.length)

/-- Whatever follows the token, the parser reads just the token and fails with `e`. -/
def Refuses {symbol err alpha : Type} (p : Parser symbol err alpha) (tok : List symbol)
    (e : err) : Prop :=
  forall (c : Cursor symbol) (more : List symbol), c.Valid -> c.rest = tok ++ more ->
    p c = .ok (.error e, c.advance tok.length)

def ReadsAll {symbol err alpha : Type} (p : Parser symbol err alpha) (tok : List symbol)
    (a : alpha) : Prop :=
  forall c : Cursor symbol, c.Valid -> c.rest = tok ->
    p c = .ok (.ok a, c.advance tok.length)

namespace Reads

variable {symbol err err' alpha beta : Type} {tok tok' : List symbol} {a : alpha}
  {b : beta} {p : Parser symbol err alpha} {f : alpha -> Parser symbol err beta}

theorem all (h : p.Reads tok a) : p.ReadsAll tok a := by
  intro c hc hrest
  exact h c [] hc (by rw [hrest, List.append_nil])

theorem succeed : (Parser.succeed a : Parser symbol err alpha).Reads [] a := by
  intro c more _ _
  rfl

theorem andThen (hp : p.Reads tok a) (hf : (f a).Reads tok' b) :
    (Parser.andThen p f).Reads (tok ++ tok') b := by
  intro c more hc hrest
  rw [List.append_assoc] at hrest
  unfold Parser.andThen
  rw [hp c (tok' ++ more) hc hrest, ok_bind]
  simp only
  rw [hf _ more (Cursor.valid_behind hc hrest) (Cursor.rest_advance hrest),
    Cursor.advance_advance, List.length_append]

theorem bind (hp : p.Reads tok a) (hf : (f a).Reads tok' b) :
    (p >>= f).Reads (tok ++ tok') b :=
  andThen hp hf

theorem map (hp : p.Reads tok a) (g : alpha -> beta) : (g <$> p).Reads tok (g a) := by
  have hbind := hp.bind (f := fun a => (pure (g a) : Parser symbol err beta)) succeed
  rw [List.append_nil] at hbind
  exact hbind

theorem mapError (hp : p.Reads tok a) (g : err -> err') :
    (Parser.mapError g p).Reads tok a := by
  intro c more hc hrest
  unfold Parser.mapError
  rw [hp c more hc hrest, ok_bind]
  rfl

theorem observe (hp : p.Reads tok a) :
    (Parser.observe p : Parser symbol err' (Except err alpha)).Reads tok (.ok a) := by
  intro c more hc hrest
  unfold Parser.observe
  rw [hp c more hc hrest, ok_bind]
  rfl

theorem within_run {sub sub' : Cursor symbol} (hp : p sub = .ok (.ok a, sub')) :
    (Parser.within sub p).Reads [] (a, sub') := by
  intro c more _ _
  unfold Parser.within
  rw [hp, ok_bind]
  rfl

theorem within {sub : Cursor symbol} (hsub : sub.Valid) (hp : p.ReadsAll sub.rest a) :
    (Parser.within sub p).Reads [] (a, sub.advance sub.rest.length) :=
  within_run (hp sub hsub rfl)

end Reads

namespace Refuses

variable {symbol err err' alpha beta : Type} {tok tok' : List symbol} {a : alpha} {e : err}
  {p : Parser symbol err alpha} {f : alpha -> Parser symbol err beta}

theorem fail : (Parser.fail e : Parser symbol err alpha).Refuses [] e := by
  intro c more _ _
  rfl

theorem behind (hp : p.Reads tok a) (hf : (f a).Refuses tok' e) :
    (p >>= f).Refuses (tok ++ tok') e := by
  intro c more hc hrest
  rw [List.append_assoc] at hrest
  change Parser.andThen p f c = _
  unfold Parser.andThen
  rw [hp c (tok' ++ more) hc hrest, ok_bind]
  simp only
  rw [hf _ more (Cursor.valid_behind hc hrest) (Cursor.rest_advance hrest),
    Cursor.advance_advance, List.length_append]

theorem observe (hp : p.Refuses tok e) :
    (Parser.observe p : Parser symbol err' (Except err alpha)).Reads tok (.error e) := by
  intro c more hc hrest
  unfold Parser.observe
  rw [hp c more hc hrest, ok_bind]
  rfl

end Refuses

namespace ReadsAll

variable {symbol err err' alpha : Type} {a b : alpha} {tok tok' : List symbol}
  {body : alpha -> Parser symbol err alpha} {p : Parser symbol err alpha}

theorem loop_nil (fuel : Nat) {c : Cursor symbol} (hc : c.Valid) (hrest : c.rest = []) :
    Parser.loop body (fuel + 1) a c = .ok (.ok a, c) := by
  have hlen := c.length_rest
  rw [hrest, List.length_nil] at hlen
  unfold Cursor.Valid at hc
  unfold Parser.loop
  rw [if_pos (by omega)]

/-- The loop reads the items one after the other, each with the value that the items in
front of it have led to. -/
theorem loop {item : Type} {bytes : item -> List symbol} {result : alpha -> item -> alpha}
    {Fits : alpha -> List item -> Prop}
    (hbody : forall a x xs, Fits a (x :: xs) -> bytes x ≠ [] ∧
      (body a).Reads (bytes x) (result a x) ∧ Fits (result a x) xs)
    (items : List item) (fuel : Nat) (hfits : Fits a items) {c : Cursor symbol}
    (hc : c.Valid) (hrest : c.rest = items.flatMap bytes)
    (hfuel : (items.flatMap bytes).length < fuel) :
    Parser.loop body fuel a c =
      .ok (.ok (items.foldl result a), c.advance (items.flatMap bytes).length) := by
  induction items generalizing a c fuel with
  | nil =>
      cases fuel with
      | zero => exact absurd hfuel (Nat.not_lt_zero _)
      | succ fuel => exact loop_nil fuel hc hrest
  | cons x xs ih =>
      rcases hbody a x xs hfits with ⟨hsome, hreads, hmore⟩
      have hpos : 0 < (bytes x).length := List.length_pos_iff.mpr hsome
      rw [List.flatMap_cons] at hrest hfuel ⊢
      rw [List.length_append] at hfuel
      cases fuel with
      | zero => exact absurd hfuel (Nat.not_lt_zero _)
      | succ fuel =>
          have hfit := Cursor.fits_of_rest hc hrest
          unfold Parser.loop
          rw [if_neg (by omega)]
          unfold Parser.andThen
          rw [hreads c _ hc hrest, ok_bind]
          simp only
          rw [ih fuel hmore (Cursor.valid_behind hc hrest) (Cursor.rest_advance hrest) (by omega),
            Cursor.advance_advance, List.length_append]
          rfl

theorem whileNonempty {item : Type} {bytes : item -> List symbol}
    {result : alpha -> item -> alpha} (Fits : alpha -> List item -> Prop)
    (hbody : forall a x xs, Fits a (x :: xs) -> bytes x ≠ [] ∧
      (body a).Reads (bytes x) (result a x) ∧ Fits (result a x) xs)
    {items : List item} (hfits : Fits a items) :
    (Parser.whileNonempty body a).ReadsAll (items.flatMap bytes)
      (items.foldl result a) := by
  intro c hc hrest
  have hlen := c.length_rest
  rw [hrest] at hlen
  exact loop hbody items _ hfits hc hrest (by omega)

end ReadsAll

/-!
## What has been read
-/

/-- When the parser returns a result, the symbols that it has read spell the result. -/
def Spells {symbol err alpha : Type} (p : Parser symbol err alpha)
    (P : alpha -> List symbol -> Prop) : Prop :=
  forall (c : Cursor symbol) (a : alpha) (c' : Cursor symbol), c.Valid ->
    p c = .ok (.ok a, c') ->
      exists k, c' = c.advance k ∧ c.pos + k ≤ c.buffer.length ∧ P a (c.rest.take k)

namespace Spells

variable {symbol err err' alpha beta : Type} {P : alpha -> List symbol -> Prop}
  {R : alpha -> beta -> List symbol -> Prop} {p : Parser symbol err alpha}
  {f : alpha -> Parser symbol err beta}

theorem mono {P' : alpha -> List symbol -> Prop} (h : p.Spells P)
    (hP : forall a tok, P a tok -> P' a tok) : p.Spells P' := by
  intro c a c' hc hrun
  rcases h c a c' hc hrun with ⟨k, hc', hk, ha⟩
  exact ⟨k, hc', hk, hP a _ ha⟩

theorem of_safe {n : Nat} {Q : alpha -> Prop} (h : p.Safe n Q) :
    p.Spells (fun a tok => Q a ∧ n ≤ tok.length) := by
  intro c a c' hc hrun
  rcases h c hc with ⟨r, k, hsafe, hk, hr⟩
  rw [hrun] at hsafe
  cases hsafe
  rcases hr a rfl with ⟨hn, ha⟩
  refine ⟨k, rfl, hk, ha, ?_⟩
  rw [List.length_take, Cursor.length_rest]
  omega

theorem succeed (a : alpha) :
    (Parser.succeed a : Parser symbol err alpha).Spells (fun b tok => b = a ∧ tok = []) := by
  intro c b c' hc hrun
  cases hrun
  exact ⟨0, rfl, hc, rfl, List.take_zero⟩

theorem fail (e : err) : (Parser.fail e : Parser symbol err alpha).Spells P := by
  intro c a c' _ hrun
  cases hrun

theorem andThen (hp : p.Spells P) (hf : forall a, (f a).Spells (R a)) :
    (Parser.andThen p f).Spells (fun b tok =>
      exists a xs ys, tok = xs ++ ys ∧ P a xs ∧ R a b ys) := by
  intro c b c' hc hrun
  unfold Parser.andThen at hrun
  rcases bind_eq_ok.mp hrun with ⟨⟨r, c1⟩, hfirst, hrest⟩
  cases r with
  | error e => cases hrest
  | ok a =>
      rcases hp c a c1 hc hfirst with ⟨k, rfl, hk, ha⟩
      rcases hf a (c.advance k) b c' hk hrest with ⟨m, rfl, hm, hb⟩
      have hrest' : (c.advance k).rest = c.rest.drop k := by
        unfold Cursor.rest Cursor.advance
        rw [List.drop_drop]
      rw [hrest'] at hb
      rw [Cursor.advance_pos, Cursor.advance_buffer] at hm
      refine ⟨k + m, Cursor.advance_advance k m c, by omega, a, _, _, ?_, ha, hb⟩
      exact List.take_add

theorem bind (hp : p.Spells P) (hf : forall a, (f a).Spells (R a)) :
    (p >>= f).Spells (fun b tok => exists a xs ys, tok = xs ++ ys ∧ P a xs ∧ R a b ys) :=
  andThen hp hf

theorem mapError (hp : p.Spells P) (g : err -> err') :
    (Parser.mapError g p).Spells P := by
  intro c a c' hc hrun
  unfold Parser.mapError at hrun
  rcases bind_eq_ok.mp hrun with ⟨⟨r, c1⟩, hfirst, hrest⟩
  cases r with
  | error e => cases hrest
  | ok b =>
      cases hrest
      exact hp c a c' hc hfirst

end Spells

end Parser
end Foundation
end TWA
