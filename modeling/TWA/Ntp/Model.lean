import TWA.Config
import TWA.Foundation.Text

/-!
# The clock and its synchronisation

The clock is the Unix second of the last synchronisation and the boot
millisecond at which it was stored.  The synchronisation task asks one server
after the other, waits up to three seconds for each, and sleeps after a round.
All its queries share one socket, which queues a single packet.
-/

namespace TWA
namespace Ntp

open Foundation
open Config (Ipv4Addr)

/-! ## The clock -/

structure Clock where
  syncUnix : UInt32
  syncBaseMs : UInt32
  synced : Bool
  deriving DecidableEq, Repr

def Clock.new : Clock :=
  { syncUnix := 0
    syncBaseMs := 0
    synced := false }

def clockHm (nowMs : UInt32) (c : Clock) : Option (Nat × Nat) :=
  if !c.synced then
    none
  else
    let elapsedS := (nowMs - c.syncBaseMs).toNat / 1000
    let local' := c.syncUnix.toNat + elapsedS + Config.tzOffsetHours * 3600
    some (local' / 3600 % 24, local' / 60 % 60)

def twoDigits (n : Nat) : Text :=
  [Char.ofNat ('0'.toNat + n / 10), Char.ofNat ('0'.toNat + n % 10)]

def clockText (nowMs : UInt32) (c : Clock) : Text :=
  match clockHm nowMs c with
  | some (h, m) => twoDigits h ++ [':'] ++ twoDigits m
  | none => Text.lit "--:--"

/-! ## One query -/

def ntpToUnix : Nat := 2208988800

/-- The request: version 3, mode client, everything else zero. -/
def request : List UInt8 :=
  0x1B :: List.replicate 47 0

/-- Receiving a packet into a buffer fails if the packet is longer. -/
def recvFrom (packet rx : List UInt8) : Option (Nat × List UInt8) :=
  if packet.length ≤ rx.length then
    some (packet.length, packet ++ rx.drop packet.length)
  else
    none

def be32 (b0 b1 b2 b3 : UInt8) : Nat :=
  ((b0.toNat * 256 + b1.toNat) * 256 + b2.toNat) * 256 + b3.toNat

/-- What a query makes of the packet it receives: the Unix second in the transmit
timestamp of a full reply of a server. -/
def replyUnix (packet : List UInt8) : Option Nat :=
  match recvFrom packet (List.replicate 48 0) with
  | none => none
  | some (n, rx) =>
      if n < 48 then
        none
      else
        let mode := rx.getD 0 0 &&& 0x07
        if mode ≠ 4 ∧ mode ≠ 5 then
          none
        else
          let ntp := be32 (rx.getD 40 0) (rx.getD 41 0) (rx.getD 42 0) (rx.getD 43 0)
          if ntp < ntpToUnix then none else some (ntp - ntpToUnix)

/-!
## The task and the network

A reply carries, as a ghost, the number of requests that had been sent when its
server sent it.  The network keeps, loses and delivers replies in any order.
-/

structure Request where
  server : Ipv4Addr
  packet : List UInt8
  deriving DecidableEq, Repr

structure Reply where
  packet : List UInt8
  /-- Ghost: requests sent so far when the reply was sent. -/
  sentAfter : Nat
  deriving DecidableEq, Repr

/-- A store of the clock: the number of the query's own request and the reply. -/
structure Store where
  request : Nat
  reply : Reply
  deriving DecidableEq, Repr

inductive Phase where
  /-- The next query goes to `server`; `rest` of the servers are left. -/
  | asking (server : Ipv4Addr) (rest : List Ipv4Addr)
  | waiting (server : Ipv4Addr) (rest : List Ipv4Addr)
  | sleeping
  deriving DecidableEq, Repr

structure State where
  clock : Clock
  phase : Phase
  /-- Every request sent so far. -/
  sent : List Request
  /-- The receive queue of the socket. -/
  queue : Option Reply
  inFlight : List Reply
  /-- Ghost: every store of the clock so far. -/
  stores : List Store
  deriving DecidableEq, Repr

def nextServer : List Ipv4Addr -> Phase
  | [] => .sleeping
  | server :: rest => .asking server rest

def start (servers : List Ipv4Addr) : State :=
  { clock := Clock.new
    phase := nextServer servers
    sent := []
    queue := none
    inFlight := []
    stores := [] }

def rxBufferBytes : Nat := 64

inductive Event where
  | requestSent
  | sendFailed
  /-- The query takes the packet in the queue. -/
  | received (nowMs : UInt32)
  | timedOut
  | woke
  /-- A server sends a reply. -/
  | replied (packet : List UInt8)
  /-- A reply arrives at the socket. -/
  | delivered (reply : Reply)
  | lost (reply : Reply)
  deriving DecidableEq, Repr

/-- A query gives up only while the queue is empty: receiving is polled first. -/
def Enabled (e : Event) (s : State) : Prop :=
  match e with
  | .requestSent => exists server rest, s.phase = .asking server rest
  | .sendFailed => exists server rest, s.phase = .asking server rest
  | .received _ => (exists server rest, s.phase = .waiting server rest) ∧ s.queue ≠ none
  | .timedOut => (exists server rest, s.phase = .waiting server rest) ∧ s.queue = none
  | .woke => s.phase = .sleeping
  | .replied _ => s.sent ≠ []
  | .delivered reply => reply ∈ s.inFlight
  | .lost reply => reply ∈ s.inFlight

def Phase.rest : Phase -> List Ipv4Addr
  | asking _ rest => rest
  | waiting _ rest => rest
  | sleeping => []

def takeReply (nowMs : UInt32) (reply : Reply) (s : State) : State :=
  match replyUnix reply.packet with
  | some unix =>
      { s with
        queue := none
        clock := { syncUnix := UInt32.ofNat unix, syncBaseMs := nowMs, synced := true }
        phase := .sleeping
        stores := s.stores ++ [⟨s.sent.length, reply⟩] }
  | none => { s with queue := none, phase := nextServer s.phase.rest }

def next (servers : List Ipv4Addr) (e : Event) (s : State) : State :=
  match e with
  | .requestSent =>
      match s.phase with
      | .asking server rest =>
          { s with phase := .waiting server rest, sent := s.sent ++ [⟨server, request⟩] }
      | _ => s
  | .sendFailed => { s with phase := nextServer s.phase.rest }
  | .received nowMs =>
      match s.queue with
      | some reply => takeReply nowMs reply s
      | none => s
  | .timedOut => { s with phase := nextServer s.phase.rest }
  | .woke => { s with phase := nextServer servers }
  | .replied packet => { s with inFlight := s.inFlight ++ [⟨packet, s.sent.length⟩] }
  | .delivered reply =>
      { s with
        inFlight := s.inFlight.erase reply
        queue :=
          if s.queue = none ∧ reply.packet.length ≤ rxBufferBytes then some reply
          else s.queue }
  | .lost reply => { s with inFlight := s.inFlight.erase reply }

def step (servers : List Ipv4Addr) (e : Event) (s t : State) : Prop :=
  Enabled e s ∧ t = next servers e s

end Ntp
end TWA
