import TWA.Ntp.Model
import TWA.Foundation.Runs

/-!
# Whether the clock is set from a fresh reply

A query accepts any full server reply that its socket has queued.  The reply is
fresh if its server sent it after the request of that query.  Replies to earlier
requests are not told apart, so freshness rests on what the queue holds when a
request is sent and on what arrives while it is outstanding.
-/

namespace TWA
namespace Ntp

open Foundation
open Config (Ipv4Addr)

/-- The reply was sent after the request of the query that accepted it. -/
def Store.Fresh (st : Store) : Prop :=
  st.request ≤ st.reply.sentAfter

def StoresFresh (s : State) : Prop :=
  forall st, st ∈ s.stores -> st.Fresh

def Reply.Acceptable (r : Reply) : Prop :=
  replyUnix r.packet ≠ none

def Waiting (s : State) : Prop :=
  exists server rest, s.phase = .waiting server rest

/-- No request is sent over an acceptable reply in the queue, and none that is older
than the outstanding request reaches the empty queue. -/
def KeepsOldRepliesOut (e : Event) (s : State) : Prop :=
  match e with
  | .requestSent => forall r, s.queue = some r -> ¬ r.Acceptable
  | .delivered r =>
      Waiting s -> s.queue = none -> r.Acceptable -> s.sent.length ≤ r.sentAfter
  | _ => True

def QueueFresh (s : State) : Prop :=
  Waiting s -> forall r, s.queue = some r -> r.Acceptable -> s.sent.length ≤ r.sentAfter

structure Counted (s : State) : Prop where
  queue : forall r, s.queue = some r -> r.sentAfter ≤ s.sent.length
  inFlight : forall r, r ∈ s.inFlight -> r.sentAfter ≤ s.sent.length

theorem acceptable_length {r : Reply} (h : r.Acceptable) :
    r.packet.length ≤ rxBufferBytes := by
  unfold Reply.Acceptable replyUnix recvFrom at h
  by_contra hlong
  have hwide : ¬ r.packet.length ≤ (List.replicate 48 (0 : UInt8)).length := by
    unfold rxBufferBytes at hlong
    rw [List.length_replicate]
    omega
  rw [if_neg hwide] at h
  exact h rfl

theorem not_waiting_nextServer (servers : List Ipv4Addr) :
    forall server rest, nextServer servers ≠ .waiting server rest := by
  intro server rest
  cases servers <;> exact Phase.noConfusion

/-!
## What one event does
-/

section Events

variable {servers : List Ipv4Addr} {e : Event} {s t : State} {nowMs : UInt32}

theorem takeReply_rejected {r : Reply} (h : ¬ r.Acceptable) :
    takeReply nowMs r s =
      { s with queue := none, phase := nextServer s.phase.rest } := by
  have hnone : replyUnix r.packet = none := not_not.mp h
  unfold takeReply
  rw [hnone]

theorem takeReply_accepted {r : Reply} (h : r.Acceptable) :
    (takeReply nowMs r s).stores = s.stores ++ [⟨s.sent.length, r⟩] ∧
      (takeReply nowMs r s).phase = .sleeping ∧
      (takeReply nowMs r s).queue = none ∧
      (takeReply nowMs r s).sent = s.sent ∧
      (takeReply nowMs r s).inFlight = s.inFlight := by
  unfold takeReply
  cases hreply : replyUnix r.packet with
  | none => exact absurd hreply h
  | some unix => exact ⟨rfl, rfl, rfl, rfl, rfl⟩

theorem takeReply_ends (nowMs : UInt32) (r : Reply) (s : State) :
    (takeReply nowMs r s).queue = none ∧ ¬ Waiting (takeReply nowMs r s) ∧
      (takeReply nowMs r s).sent = s.sent ∧
      (takeReply nowMs r s).inFlight = s.inFlight := by
  by_cases hr : r.Acceptable
  · rcases takeReply_accepted (s := s) hr with ⟨_, hphase, hqueue, hsent, hflight⟩
    refine ⟨hqueue, ?_, hsent, hflight⟩
    intro hwait
    rcases hwait with ⟨server, rest, hwait⟩
    rw [hphase] at hwait
    cases hwait
  · rw [takeReply_rejected hr]
    refine ⟨rfl, ?_, rfl, rfl⟩
    intro hwait
    rcases hwait with ⟨server, rest, hwait⟩
    exact not_waiting_nextServer _ server rest hwait

theorem received_eq {r : Reply} (hqueue : s.queue = some r) :
    next servers (.received nowMs) s = takeReply nowMs r s := by
  unfold next
  rw [hqueue]

theorem requestSent_eq {server : Ipv4Addr} {rest : List Ipv4Addr}
    (hphase : s.phase = .asking server rest) :
    next servers .requestSent s =
      { s with phase := .waiting server rest, sent := s.sent ++ [⟨server, request⟩] } := by
  unfold next
  rw [hphase]

theorem counted_step (h : Counted s) (hstep : step servers e s t) : Counted t := by
  rcases hstep with ⟨henabled, ht⟩
  subst ht
  cases e with
  | requestSent =>
      rcases henabled with ⟨server, rest, hphase⟩
      rw [requestSent_eq hphase]
      constructor
      · intro r hr
        have hle := h.queue r hr
        simp only [List.length_append]
        omega
      · intro r hr
        have hle := h.inFlight r hr
        simp only [List.length_append]
        omega
  | sendFailed => exact ⟨h.queue, h.inFlight⟩
  | received nowMs =>
      rcases Option.ne_none_iff_exists'.mp henabled.2 with ⟨r, hqueue⟩
      rw [received_eq hqueue]
      rcases takeReply_ends nowMs r s with ⟨hempty, _, hsent, hflight⟩
      constructor
      · intro r' hr'
        rw [hempty] at hr'
        cases hr'
      · intro r' hr'
        rw [hflight] at hr'
        rw [hsent]
        exact h.inFlight r' hr'
  | timedOut => exact ⟨h.queue, h.inFlight⟩
  | woke => exact ⟨h.queue, h.inFlight⟩
  | replied packet =>
      constructor
      · exact h.queue
      · intro r hr
        cases List.mem_append.mp hr with
        | inl hold => exact h.inFlight r hold
        | inr hnew =>
            rw [List.mem_singleton.mp hnew]
            exact Nat.le_refl _
  | delivered r =>
      constructor
      · intro r' hr'
        simp only [next] at hr'
        split at hr'
        · cases hr'
          exact h.inFlight _ henabled
        · exact h.queue r' hr'
      · intro r' hr'
        exact h.inFlight r' (List.mem_of_mem_erase hr')
  | lost r =>
      constructor
      · exact h.queue
      · intro r' hr'
        exact h.inFlight r' (List.mem_of_mem_erase hr')

theorem storesFresh_step (h : StoresFresh s) (hqueue : QueueFresh s)
    (hstep : step servers e s t) : StoresFresh t := by
  rcases hstep with ⟨henabled, ht⟩
  subst ht
  cases e with
  | requestSent =>
      rcases henabled with ⟨server, rest, hphase⟩
      rw [requestSent_eq hphase]
      exact h
  | received nowMs =>
      rcases Option.ne_none_iff_exists'.mp henabled.2 with ⟨r, hr⟩
      rw [received_eq hr]
      by_cases haccept : r.Acceptable
      · intro st hst
        rw [(takeReply_accepted haccept).1] at hst
        cases List.mem_append.mp hst with
        | inl hold => exact h st hold
        | inr hnew =>
            rw [List.mem_singleton.mp hnew]
            exact hqueue henabled.1 r hr haccept
      · rw [takeReply_rejected haccept]
        exact h
  | sendFailed => exact h
  | timedOut => exact h
  | woke => exact h
  | replied packet => exact h
  | delivered r => exact h
  | lost r => exact h

/-- An event that keeps old replies out leaves only fresh ones to a waiting query. -/
theorem queueFresh_step (h : QueueFresh s) (hguard : KeepsOldRepliesOut e s)
    (hstep : step servers e s t) : QueueFresh t := by
  rcases hstep with ⟨henabled, ht⟩
  subst ht
  cases e with
  | requestSent =>
      rcases henabled with ⟨server, rest, hphase⟩
      rw [requestSent_eq hphase]
      intro _ r hr haccept
      exact absurd haccept (hguard r hr)
  | received nowMs =>
      rcases Option.ne_none_iff_exists'.mp henabled.2 with ⟨r, hr⟩
      rw [received_eq hr]
      intro hwait
      exact absurd hwait (takeReply_ends nowMs r s).2.1
  | sendFailed =>
      intro hwait
      rcases hwait with ⟨server, rest, hwait⟩
      exact absurd hwait (not_waiting_nextServer _ server rest)
  | timedOut =>
      intro hwait
      rcases hwait with ⟨server, rest, hwait⟩
      exact absurd hwait (not_waiting_nextServer _ server rest)
  | woke =>
      intro hwait
      rcases hwait with ⟨server, rest, hwait⟩
      exact absurd hwait (not_waiting_nextServer _ server rest)
  | replied packet => exact h
  | delivered r =>
      intro hwait r' hr' haccept
      simp only [next] at hr'
      split at hr'
      · rename_i hempty
        cases hr'
        exact hguard hwait hempty.1 haccept
      · exact h hwait r' hr' haccept
  | lost r => exact h

/-- After an event that lets an old reply in, the query can set the clock from it. -/
theorem old_reply_accepted (nowMs : UInt32) (hcounted : Counted s)
    (hguard : ¬ KeepsOldRepliesOut e s) (hstep : step servers e s t) :
    exists u, step servers (.received nowMs) t u ∧ ¬ StoresFresh u := by
  rcases hstep with ⟨henabled, ht⟩
  have hexposed : exists r, Waiting t ∧ t.queue = some r ∧ r.Acceptable ∧
      r.sentAfter < t.sent.length := by
    subst ht
    cases e with
    | requestSent =>
        rcases henabled with ⟨server, rest, hphase⟩
        simp only [KeepsOldRepliesOut, not_forall, not_not] at hguard
        rcases hguard with ⟨r, hr, haccept⟩
        have hle := hcounted.queue r hr
        rw [requestSent_eq hphase]
        refine ⟨r, ⟨server, rest, rfl⟩, hr, haccept, ?_⟩
        simp only [List.length_append, List.length_singleton]
        omega
    | delivered r =>
        simp only [KeepsOldRepliesOut, not_forall, Nat.not_le] at hguard
        rcases hguard with ⟨hwait, hempty, haccept, hold⟩
        refine ⟨r, hwait, ?_, haccept, hold⟩
        exact if_pos ⟨hempty, acceptable_length haccept⟩
    | sendFailed => exact absurd trivial hguard
    | received _ => exact absurd trivial hguard
    | timedOut => exact absurd trivial hguard
    | woke => exact absurd trivial hguard
    | replied packet => exact absurd trivial hguard
    | lost r => exact absurd trivial hguard
  rcases hexposed with ⟨r, hwait, hqueue, haccept, hold⟩
  refine ⟨takeReply nowMs r t, ⟨⟨hwait, by simp [hqueue]⟩, (received_eq hqueue).symm⟩, ?_⟩
  intro hfresh
  have hstore := hfresh ⟨t.sent.length, r⟩ (by simp [(takeReply_accepted haccept).1])
  exact absurd hstore (Nat.not_le.mpr hold)

end Events

/-!
## Whole runs
-/

theorem start_fresh (servers : List Ipv4Addr) :
    StoresFresh (start servers) ∧ QueueFresh (start servers) ∧ Counted (start servers) := by
  refine ⟨?_, ?_, ?_, ?_⟩
  · intro st hst
    cases hst
  · intro _ r hr
    cases hr
  · intro r hr
    cases hr
  · intro r hr
    cases hr

/-- As long as old replies are kept out, the clock is only set from fresh ones; and an
event keeps them out just if no query can then set the clock from an old one. -/
theorem clock_set_from_fresh_reply (servers : List Ipv4Addr) {events : List Event}
    {s : State}
    (hrun : Run (Guarded KeepsOldRepliesOut (step servers)) (start servers) events s) :
    StoresFresh s ∧
      forall e t, step servers e s t ->
        (KeepsOldRepliesOut e s <->
          forall nowMs u, step servers (.received nowMs) t u -> StoresFresh u) := by
  have hs : StoresFresh s ∧ QueueFresh s ∧ Counted s :=
    hrun.invariant (P := fun s => StoresFresh s ∧ QueueFresh s ∧ Counted s)
      (fun _ _ _ h hstep =>
        ⟨storesFresh_step h.1 h.2.1 hstep.2, queueFresh_step h.2.1 hstep.1 hstep.2,
          counted_step h.2.2 hstep.2⟩)
      (start_fresh servers)
  rcases hs with ⟨hstores, hqueue, hcounted⟩
  refine ⟨hstores, ?_⟩
  intro e t hstep
  constructor
  · intro hguard nowMs u hreceived
    exact storesFresh_step (storesFresh_step hstores hqueue hstep)
      (queueFresh_step hqueue hguard hstep) hreceived
  · intro hfresh
    by_contra hguard
    rcases old_reply_accepted 0 hcounted hguard hstep with ⟨u, hreceived, hold⟩
    exact hold (hfresh 0 u hreceived)

def serverReply : List UInt8 :=
  0x1C :: List.replicate 39 0 ++ [0xE8, 0xC0, 0, 0] ++ List.replicate 4 0

example : replyUnix serverReply = some 1695908224 := by decide

def afterEvents (events : List Event) : State :=
  events.foldl (fun s e => next Config.ntpServers e s) (start Config.ntpServers)

def promptReply : List Event :=
  [.requestSent, .replied serverReply, .delivered ⟨serverReply, 1⟩, .received 5000]

/-- The first query gets its reply. -/
theorem clock_set_from_fresh_reply_first :
    (afterEvents promptReply).clock.synced = true ∧
      StoresFresh (afterEvents promptReply) := by
  have hrun : Run (Guarded KeepsOldRepliesOut (step Config.ntpServers))
      (start Config.ntpServers) promptReply (afterEvents promptReply) := by
    refine .cons ⟨?_, ⟨_, _, rfl⟩, rfl⟩ (.cons ⟨trivial, ?_, rfl⟩
      (.cons ⟨?_, ?_, rfl⟩ (.cons ⟨trivial, ⟨⟨_, _, rfl⟩, ?_⟩, rfl⟩ (.nil _))))
    · intro r hr
      cases hr
    · exact List.cons_ne_nil _ _
    · intro _ _ _
      exact Nat.le_refl 1
    · exact List.mem_cons_self
    · exact Option.some_ne_none _
  exact ⟨by decide, (clock_set_from_fresh_reply Config.ntpServers hrun).1⟩

def lateReply : List Event :=
  [.requestSent, .replied serverReply, .timedOut, .requestSent,
    .delivered ⟨serverReply, 1⟩, .received 6000]

/-- The reply to the first request arrives when its query has given up, and the query
to the next server takes it. -/
theorem late_reply_sets_clock :
    Run (step Config.ntpServers) (start Config.ntpServers) lateReply
        (afterEvents lateReply) ∧
      (afterEvents lateReply).clock.syncUnix = 1695908224 ∧
      (afterEvents lateReply).stores = [⟨2, ⟨serverReply, 1⟩⟩] ∧
      ¬ StoresFresh (afterEvents lateReply) := by
  refine ⟨.cons ⟨⟨_, _, rfl⟩, rfl⟩ (.cons ⟨?_, rfl⟩ (.cons ⟨⟨⟨_, _, rfl⟩, rfl⟩, rfl⟩
    (.cons ⟨⟨_, _, rfl⟩, rfl⟩ (.cons ⟨?_, rfl⟩
      (.cons ⟨⟨⟨_, _, rfl⟩, ?_⟩, rfl⟩ (.nil _)))))), ?_, ?_, ?_⟩
  · exact List.cons_ne_nil _ _
  · exact List.mem_cons_self
  · exact Option.some_ne_none _
  · decide
  · decide
  · intro hfresh
    have hstore := hfresh ⟨2, ⟨serverReply, 1⟩⟩ (by decide)
    revert hstore
    unfold Store.Fresh
    decide

end Ntp
end TWA
