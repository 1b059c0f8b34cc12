import TWA.Foundation.LinearCongruential

/-!
# The seeds of a connection

A client has a seed that goes on by one step with every handshake.  It first tries to
connect until it is connected; later on each call makes one attempt to do so again.
-/

namespace TWA

open Foundation.LinearCongruential

structure WsClient where
  /-- A connection, by the seed of its handshake. -/
  client : Option UInt32
  seed : UInt32
  deriving DecidableEq, Repr

namespace WsClient

inductive Attempt where
  | noTransport
  /-- There is a transport, and the handshake over it fails. -/
  | noHandshake
  | connected
  deriving DecidableEq, Repr

def new (maskSeed : UInt32) : WsClient :=
  { client := none
    seed := maskSeed }

/-- The answer is the seed that is passed to the handshake, if there is one. -/
def tryConnect (attempt : Attempt) (w : WsClient) : Option UInt32 × WsClient :=
  if attempt = .noTransport then
    (none, w)
  else
    let w := { w with seed := w.seed * 1664525 + 1013904223 }
    if attempt = .noHandshake then
      (some w.seed, w)
    else
      (some w.seed, { w with client := some w.seed })

def connectLoop : List Attempt -> WsClient -> List UInt32 × WsClient
  | [], w => ([], w)
  | attempt :: attempts, w =>
      let (seed, w) := tryConnect attempt w
      if attempt = .connected then
        (seed.toList, w)
      else
        let (seeds, w) := connectLoop attempts w
        (seed.toList ++ seeds, w)

/-- The old connection is dropped first. -/
def reconnect (attempt : Attempt) (w : WsClient) : Option UInt32 × WsClient :=
  tryConnect attempt { w with client := none }

def reconnects : List Attempt -> WsClient -> List UInt32 × WsClient
  | [], w => ([], w)
  | attempt :: attempts, w =>
      let (seed, w) := reconnect attempt w
      let (seeds, w) := reconnects attempts w
      (seed.toList ++ seeds, w)

/-- The seeds of all handshakes of a client: those until it is connected, and then those
of its reconnections. -/
def handshakeSeeds (maskSeed : UInt32) (attempts later : List Attempt) : List UInt32 :=
  let (seeds, w) := connectLoop attempts (new maskSeed)
  if w.client.isSome then seeds ++ (reconnects later w).1 else seeds

def evolve : UInt32 -> UInt32 :=
  wrappingNext 1664525 1013904223

def trail (n : Nat) (seed : UInt32) : List UInt32 :=
  (List.range n).map fun i => evolve^[i + 1] seed

section Seeds

variable {attempt : Attempt} {attempts : List Attempt} {w : WsClient}

theorem trail_append (n m : Nat) (seed : UInt32) :
    trail n seed ++ trail m (evolve^[n] seed) = trail (n + m) seed := by
  unfold trail
  rw [List.range_add, List.map_append, List.map_map]
  congr 1
  apply List.map_congr_left
  intro i _
  rw [Function.comp_apply, ← Function.iterate_add_apply, Nat.add_right_comm, Nat.add_comm n]

structure Evolves (seeds : List UInt32) (w w' : WsClient) : Prop where
  seeds_eq : seeds = trail seeds.length w.seed
  seed_eq : w'.seed = evolve^[seeds.length] w.seed

theorem Evolves.trans {seeds seeds' : List UInt32} {w w' w'' : WsClient}
    (h : Evolves seeds w w') (h' : Evolves seeds' w' w'') : Evolves (seeds ++ seeds') w w'' := by
  constructor
  · rw [List.length_append, ← trail_append, ← h.seed_eq, ← h.seeds_eq, ← h'.seeds_eq]
  · rw [List.length_append, h'.seed_eq, h.seed_eq, ← Function.iterate_add_apply, Nat.add_comm]

theorem tryConnect_evolves (attempt : Attempt) (w : WsClient) :
    Evolves (tryConnect attempt w).1.toList w (tryConnect attempt w).2 := by
  cases attempt with
  | noTransport => exact ⟨rfl, rfl⟩
  | noHandshake => exact ⟨rfl, rfl⟩
  | connected => exact ⟨rfl, rfl⟩

theorem connectLoop_evolves (attempts : List Attempt) (w : WsClient) :
    Evolves (connectLoop attempts w).1 w (connectLoop attempts w).2 := by
  induction attempts generalizing w with
  | nil => exact ⟨rfl, rfl⟩
  | cons attempt attempts ih =>
      have hfirst := tryConnect_evolves attempt w
      unfold connectLoop
      simp only
      split
      · exact hfirst
      · exact hfirst.trans (ih _)

theorem reconnects_evolves (attempts : List Attempt) (w : WsClient) :
    Evolves (reconnects attempts w).1 w (reconnects attempts w).2 := by
  induction attempts generalizing w with
  | nil => exact ⟨rfl, rfl⟩
  | cons attempt attempts ih =>
      have hdrop : Evolves [] w { w with client := none } := ⟨rfl, rfl⟩
      exact (hdrop.trans (tryConnect_evolves attempt _)).trans (ih _)

theorem handshakeSeeds_eq (maskSeed : UInt32) (attempts later : List Attempt) :
    handshakeSeeds maskSeed attempts later =
      trail (handshakeSeeds maskSeed attempts later).length maskSeed := by
  have hconnect := connectLoop_evolves attempts (new maskSeed)
  unfold handshakeSeeds
  simp only
  split
  · exact (hconnect.trans (reconnects_evolves later _)).seeds_eq
  · exact hconnect.seeds_eq

theorem getElem?_trail {n i : Nat} {seed s : UInt32} (h : (trail n seed)[i]? = some s) :
    s = evolve^[i + 1] seed := by
  unfold trail at h
  rw [List.getElem?_map] at h
  rcases Option.map_eq_some_iff.mp h with ⟨k, hk, rfl⟩
  rw [List.getElem?_eq_some_iff] at hk
  rcases hk with ⟨hlt, rfl⟩
  rw [List.getElem_range]

/-- Handshakes of a client that are fewer than `2 ^ 32` apart get different seeds. -/
theorem seeds_do_not_repeat (maskSeed : UInt32) (attempts later : List Attempt) {i j : Nat}
    {s t : UInt32} (hij : i < j) (hnear : j < i + 2 ^ 32)
    (hs : (handshakeSeeds maskSeed attempts later)[i]? = some s)
    (ht : (handshakeSeeds maskSeed attempts later)[j]? = some t) : s ≠ t := by
  rw [handshakeSeeds_eq] at hs ht
  have hsteps : j + 1 = (j - i) + (i + 1) := by omega
  have hmul : (1664525 : UInt32).toNat % 4 = 1 := rfl
  have hadd : (1013904223 : UInt32).toNat % 2 = 1 := rfl
  have hne : evolve^[j - i] (evolve^[i + 1] maskSeed) ≠ evolve^[i + 1] maskSeed :=
    iterate_ne hmul hadd (by omega) (by omega) _
  rw [← Function.iterate_add_apply, ← hsteps] at hne
  rw [getElem?_trail hs, getElem?_trail ht]
  exact hne.symm

theorem seeds_do_not_repeat_three :
    handshakeSeeds 7 [.noTransport, .noHandshake, .connected] [.connected] =
        [1025555898, 3923423697, 2630631676] ∧
      (1025555898 : UInt32) ≠ 2630631676 :=
  ⟨by decide, seeds_do_not_repeat 7 [.noTransport, .noHandshake, .connected] [.connected]
    (i := 0) (j := 2) (by decide) (by decide) (by decide) (by decide)⟩

end Seeds

end WsClient
end TWA
