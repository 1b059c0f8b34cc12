import TWA.EmbeddedTls.RecordReader
import TWA.Foundation.Runs

/-!
# Reading survives cancellation

Between two waits the reader holds exactly the bytes of the current record that
the transport has handed over: a part of the header, or the header and a part
of the body.  Dropping the future changes none of it.  So the records handed
over depend only on how many bytes have been taken.
-/

namespace TWA
namespace EmbeddedTls

open Foundation
open Foundation.Exec

structure Record where
  header : RecordHeader
  body : List UInt8
  header_length : header.header.length = RecordHeader.len
  decodes : RecordHeader.decode header.header = .ok header
  body_length : body.length = header.contentLength

namespace Record

def wire (rec : Record) : List UInt8 :=
  rec.header.header ++ rec.body

def pair (rec : Record) : RecordHeader × List UInt8 :=
  (rec.header, rec.body)

theorem length_wire (rec : Record) :
    rec.wire.length = RecordHeader.len + rec.body.length := by
  unfold wire
  rw [List.length_append, rec.header_length]

theorem wire_pos (rec : Record) : 0 < rec.wire.length := by
  rw [rec.length_wire]
  unfold RecordHeader.len
  omega

end Record

def wireOf (records : List Record) : List UInt8 :=
  records.flatMap Record.wire

namespace RecordReader

variable {r : RecordReader} {rec : Record} {part bytes : List UInt8}

/-!
## What the reader holds
-/

/-- The reader holds `part` of the record `rec`, and the rest of the body has room. -/
inductive Holds (rec : Record) (part : List UInt8) (r : RecordReader) : Prop where
  | header (hidle : r.bodyActive = false) (hhave : r.hdrHave < RecordHeader.len)
      (hhdr : r.hdr.length = RecordHeader.len) (hpending : r.pending = 0)
      (hdecoded : r.decoded ≤ r.buf.length) (hpart : part = r.hdr.take r.hdrHave)
  | body (hactive : r.bodyActive = true) (hhdr : r.hdr = rec.header.header)
      (hlen : r.bodyLen = rec.body.length) (hpending : r.pending < r.bodyLen)
      (hroom : r.decoded + r.bodyLen ≤ r.buf.length)
      (hpart : part = r.hdr ++ (r.buf.drop r.decoded).take r.pending)

def AwaitAgrees (rec : Record) (r : RecordReader) : Await -> Prop
  | .header => r.bodyActive = false
  | .body header amount remain =>
      r.bodyActive = true ∧ header = rec.header ∧ amount = r.bodyLen ∧
        remain = r.bodyLen - r.pending

theorem Holds.length_part (h : Holds rec part r) :
    part.length = if r.bodyActive then RecordHeader.len + r.pending else r.hdrHave := by
  cases h with
  | header hidle hhave hhdr _ _ hpart =>
      rw [hpart, hidle, List.length_take, hhdr]
      simp only [Bool.false_eq_true, if_false]
      omega
  | body hactive hhdr _ hpending hroom hpart =>
      rw [hpart, hactive, hhdr, List.length_append, rec.header_length, List.length_take,
        List.length_drop]
      simp only [if_true]
      omega

theorem Holds.length_lt (h : Holds rec part r) : part.length < rec.wire.length := by
  rw [h.length_part, rec.length_wire]
  cases h with
  | header hidle hhave _ _ _ _ =>
      rw [hidle]
      simp only [Bool.false_eq_true, if_false]
      omega
  | body hactive _ hlen hpending _ _ =>
      rw [hactive]
      simp only [if_true]
      omega

theorem AwaitAgrees.requested (h : Holds rec part r) {a : Await}
    (ha : AwaitAgrees rec r a) :
    0 < a.requested r ∧ part.length + a.requested r ≤ rec.wire.length := by
  rw [h.length_part, rec.length_wire]
  cases h with
  | header hidle hhave _ _ _ _ =>
      rw [hidle]
      cases a with
      | header =>
          simp only [Await.requested, Bool.false_eq_true, if_false]
          omega
      | body header amount remain =>
          have hactive := ha.1
          rw [hidle] at hactive
          cases hactive
  | body hactive _ hlen hpending _ _ =>
      cases a with
      | header =>
          have hidle : r.bodyActive = false := ha
          rw [hactive] at hidle
          cases hidle
      | body header amount remain =>
          rw [hactive]
          simp only [Await.requested, if_true]
          rw [ha.2.2.2]
          omega

/-!
## One stretch of a read
-/

/-- A stretch that has received `part` of the record waits for more or hands the
whole record over; the buffer keeps its size. -/
inductive Outcome (rec : Record) (part : List UInt8) (size : Nat) :
    Progress × RecordReader -> Prop where
  | waits (a : Await) (r : RecordReader) (hsize : r.buf.length = size)
      (hpart : part.length < rec.wire.length) (hholds : Holds rec part r)
      (hagrees : AwaitAgrees rec r a) : Outcome rec part size (.awaits a, r)
  /-- The reader is ready for any next record. -/
  | done (r : RecordReader) (hsize : r.buf.length = size) (hpart : part = rec.wire)
      (hholds : forall rec', Holds rec' [] r) :
      Outcome rec part size (.ready rec.header rec.body, r)

theorem advanceLoop_outcome {remain : Nat} (hactive : r.bodyActive = true)
    (hhdr : r.hdr = rec.header.header) (hlen : r.bodyLen = rec.body.length)
    (hpending : r.pending ≤ r.bodyLen) (hroom : r.decoded + r.bodyLen ≤ r.buf.length)
    (hpart : part = r.hdr ++ (r.buf.drop r.decoded).take r.pending)
    (hcut : part <+: rec.wire) (hremain : remain = r.bodyLen - r.pending) :
    exists result, advanceLoop rec.header r.bodyLen remain r = .ok result ∧
      Outcome rec part r.buf.length result := by
  unfold advanceLoop
  by_cases hmore : r.pending < r.bodyLen
  · have hholds : Holds rec part r :=
      Holds.body hactive hhdr hlen hmore hroom hpart
    rw [if_pos hmore, slice_of_le (by omega) (by omega)]
    exact ⟨_, rfl, Outcome.waits _ r rfl hholds.length_lt hholds
      ⟨hactive, rfl, rfl, hremain⟩⟩
  · have hall : r.pending = rec.body.length := by omega
    have hcontent := rec.body_length
    have hsame : part = rec.wire := by
      apply hcut.eq_of_length
      rw [hpart, rec.length_wire, hhdr, List.length_append, rec.header_length,
        List.length_take, List.length_drop]
      omega
    have hbody : (r.buf.drop r.decoded).take r.pending = rec.body := by
      rw [hpart, hhdr] at hsame
      exact List.append_cancel_left hsame
    have hnone : 0 < RecordHeader.len := by decide
    rw [if_neg hmore]
    unfold consume
    simp only [← hcontent]
    rw [slice_of_le (Nat.le_add_right _ _) (by omega), ok_bind, sub_of_le (by omega), ok_bind,
      List.drop_take, Nat.add_sub_cancel_left, ← hall, hbody]
    refine ⟨_, rfl, Outcome.done _ rfl hsame ?_⟩
    intro rec'
    refine Holds.header rfl hnone ?_ ?_ ?_ ?_
    · rw [hhdr]
      exact rec.header_length
    · exact Nat.sub_self _
    · simp only
      omega
    · simp

/-- The body that is about to be read has room, after what has been handed over is
discarded if it must be. -/
theorem ensureContiguous_eq {amount : Nat} (hfits : amount ≤ r.buf.length)
    (hroom : r.pending = 0 ∨ r.decoded + amount ≤ r.buf.length)
    (hdecoded : r.decoded ≤ r.buf.length) :
    exists decoded, decoded + amount ≤ r.buf.length ∧
      (r.pending ≠ 0 -> decoded = r.decoded) ∧
      ensureContiguous amount r = .ok (.ok { r with decoded := decoded }) := by
  unfold ensureContiguous
  by_cases hover : r.decoded + amount > r.buf.length
  · have hempty : r.pending = 0 := by omega
    rw [if_pos hover, if_neg (by omega), hempty, slice_of_le (by omega) (by omega)]
    refine ⟨0, by omega, fun hsome => absurd rfl hsome, ?_⟩
    simp
  · rw [if_neg hover]
    exact ⟨r.decoded, by omega, fun _ => rfl, rfl⟩

theorem advance_outcome (hactive : r.bodyActive = true)
    (hhdr : r.hdr = rec.header.header) (hlen : r.bodyLen = rec.body.length)
    (hpending : r.pending ≤ r.bodyLen) (hfits : r.bodyLen ≤ r.buf.length)
    (hroom : r.pending = 0 ∨ r.decoded + r.bodyLen ≤ r.buf.length)
    (hdecoded : r.decoded ≤ r.buf.length)
    (hpart : part = r.hdr ++ (r.buf.drop r.decoded).take r.pending)
    (hcut : part <+: rec.wire) :
    exists result, advance rec.header r.bodyLen r = .ok result ∧
      Outcome rec part r.buf.length result := by
  rcases ensureContiguous_eq hfits hroom hdecoded with
    ⟨decoded, hroom', hkept, hensure⟩
  unfold advance
  rw [hensure, ok_bind]
  simp only
  rw [sub_of_le hpending, ok_bind]
  have hpart' : part = r.hdr ++ (r.buf.drop decoded).take r.pending := by
    by_cases hempty : r.pending = 0
    · rw [hpart, hempty, List.take_zero, List.take_zero]
    · rw [hpart, hkept hempty]
  exact advanceLoop_outcome (r := { r with decoded := decoded }) hactive hhdr hlen hpending
    hroom' hpart' hcut rfl

theorem headerLoop_outcome (hidle : r.bodyActive = false)
    (hhave : r.hdrHave ≤ RecordHeader.len) (hhdr : r.hdr.length = RecordHeader.len)
    (hpending : r.pending = 0) (hdecoded : r.decoded ≤ r.buf.length)
    (hfits : rec.body.length ≤ r.buf.length) (hpart : part = r.hdr.take r.hdrHave)
    (hcut : part <+: rec.wire) :
    exists result, headerLoop r = .ok result ∧
      Outcome rec part r.buf.length result := by
  unfold headerLoop
  by_cases hmore : r.hdrHave < RecordHeader.len
  · have hholds : Holds rec part r :=
      Holds.header hidle hmore hhdr hpending hdecoded hpart
    rw [if_pos hmore, slice_of_le (by omega) (by omega)]
    exact ⟨_, rfl, Outcome.waits _ r rfl hholds.length_lt hholds hidle⟩
  · have hwhole : part = r.hdr := by
      rw [hpart, List.take_of_length_le (by omega)]
    have hsame : r.hdr = rec.header.header := by
      have hfront : rec.header.header <+: rec.wire := List.prefix_append _ _
      rw [← hwhole]
      apply List.IsPrefix.eq_of_length
      · apply List.prefix_of_prefix_length_le hcut hfront
        exact Nat.le_of_eq (by rw [hwhole, hhdr, rec.header_length])
      · rw [hwhole, hhdr, rec.header_length]
    have hdecodes : RecordHeader.decode r.hdr = .ok rec.header := by
      rw [hsame]
      exact rec.decodes
    rw [if_neg hmore, hdecodes]
    have hlen : rec.header.contentLength = rec.body.length := rec.body_length.symm
    refine advance_outcome
      (r := { r with bodyLen := rec.header.contentLength, bodyActive := true })
      rfl hsame hlen ?_ ?_ (Or.inl hpending) hdecoded ?_ hcut
    · rw [hpending]
      exact Nat.zero_le _
    · rw [hlen]
      exact hfits
    · rw [hwhole, hpending]
      simp

/-!
Both ways into a stretch: the start of a read, and the arrival of bytes.
-/

theorem read_outcome (h : Holds rec part r) (hfits : rec.body.length ≤ r.buf.length)
    (hcut : part <+: rec.wire) :
    exists result, read r = .ok result ∧ Outcome rec part r.buf.length result := by
  unfold read
  cases h with
  | header hidle hhave hhdr hpending hdecoded hpart =>
      rw [if_neg (by simp [hidle])]
      exact headerLoop_outcome hidle (Nat.le_of_lt hhave) hhdr hpending hdecoded hfits
        hpart hcut
  | body hactive hhdr hlen hpending hroom hpart =>
      have hdecodes : RecordHeader.decode r.hdr = .ok rec.header := by
        rw [hhdr]
        exact rec.decodes
      rw [if_pos hactive, hdecodes]
      exact advance_outcome hactive hhdr hlen (Nat.le_of_lt hpending) (by omega)
        (Or.inr hroom) (by omega) hpart hcut

theorem resume_outcome (h : Holds rec part r) {a : Await} (ha : AwaitAgrees rec r a)
    (hbytes : bytes.length ≤ a.requested r) (hfits : rec.body.length ≤ r.buf.length)
    (hcut : part ++ bytes <+: rec.wire) :
    exists result, resume bytes a r = .ok result ∧
      Outcome rec (part ++ bytes) r.buf.length result := by
  unfold resume
  cases h with
  | header hidle hhave hhdr hpending hdecoded hpart =>
      cases a with
      | body header amount remain =>
          have hactive := ha.1
          rw [hidle] at hactive
          cases hactive
      | header =>
          simp only [Await.requested] at hbytes
          have hroom : r.hdrHave + bytes.length ≤ r.hdr.length := by omega
          refine headerLoop_outcome hidle ?_ ?_ hpending hdecoded hfits ?_ hcut
          · rw [← hhdr]
            exact hroom
          · rw [length_splice hroom, hhdr]
          · rw [take_splice_filled hroom, hpart]
  | body hactive hhdr hlen hpending hroom hpart =>
      cases a with
      | header =>
          have hidle : r.bodyActive = false := ha
          rw [hactive] at hidle
          cases hidle
      | body header amount remain =>
          rcases ha with ⟨_, hheader, hamount, hremain⟩
          simp only [Await.requested] at hbytes
          have hspace : r.decoded + r.pending + bytes.length ≤ r.buf.length := by omega
          have hsize := length_splice hspace
          subst hheader
          subst hamount
          simp only
          rw [sub_of_le hbytes, ok_bind, ← hsize]
          refine advanceLoop_outcome
            (r := { r with
              buf := splice r.buf (r.decoded + r.pending) bytes
              pending := r.pending + bytes.length })
            hactive hhdr hlen ?_ ?_ ?_ hcut ?_
          · simp only
            omega
          · simp only
            omega
          · simp only
            rw [drop_take_splice hspace, hpart, List.append_assoc]
          · simp only
            omega

theorem Holds.decrypted (h : Holds rec part r) (hbytes : bytes.length = r.decoded) :
    Holds rec part { r with buf := bytes ++ r.buf.drop r.decoded } ∧
      (bytes ++ r.buf.drop r.decoded).length = r.buf.length := by
  have hdrop : (bytes ++ r.buf.drop r.decoded).drop r.decoded = r.buf.drop r.decoded :=
    List.drop_left' hbytes
  have hlen (hdecoded : r.decoded ≤ r.buf.length) :
      (bytes ++ r.buf.drop r.decoded).length = r.buf.length := by
    rw [List.length_append, List.length_drop, hbytes]
    omega
  cases h with
  | header hidle hhave hhdr hpending hdecoded hpart =>
      refine ⟨Holds.header hidle hhave hhdr hpending ?_ hpart, hlen hdecoded⟩
      simp only
      rw [hlen hdecoded]
      exact hdecoded
  | body hactive hhdr hlen' hpending hroom hpart =>
      have hsize := hlen (by omega)
      refine ⟨Holds.body hactive hhdr hlen' hpending ?_ ?_, hsize⟩
      · simp only
        rw [hsize]
        exact hroom
      · simp only
        rw [hdrop]
        exact hpart

/-!
## The connection
-/

/-- A record without a body; it stands in for the next record when none is left. -/
def emptyRecord : Record where
  header := ⟨List.replicate RecordHeader.len 0⟩
  body := []
  header_length := rfl
  decodes := rfl
  body_length := rfl

def current (rest : List Record) : Record :=
  rest.headD emptyRecord

/-- The records `done` have been handed over, and of the next one the bytes `part` have
been taken from the transport. -/
structure Follows (size : Nat) (done rest : List Record) (part : List UInt8)
    (c : Connection) : Prop where
  delivered : c.delivered = done.map Record.pair
  errors : c.errors = []
  stream : part ++ c.stream = wireOf rest
  size_eq : c.reader.buf.length = size
  holds : Holds (current rest) part c.reader
  agrees : forall a, c.future = some a -> AwaitAgrees (current rest) c.reader a
  ended : rest = [] -> part = []

variable {size : Nat} {done rest : List Record} {c c' : Connection}

theorem cutOff_of_record {stream : List UInt8} (hstream : part ++ stream = wireOf rest)
    (hended : rest = [] -> part = [])
    (hlen : part.length ≤ (current rest).wire.length) :
    part <+: (current rest).wire := by
  cases rest with
  | nil =>
      rw [hended rfl]
      exact List.nil_prefix
  | cons rec rest =>
      have hwhole : part <+: wireOf (rec :: rest) := ⟨stream, hstream⟩
      have hfront : rec.wire <+: wireOf (rec :: rest) := List.prefix_append _ _
      exact List.prefix_of_prefix_length_le hwhole hfront hlen

theorem current_fits (hfits : forall rec, rec ∈ rest -> rec.body.length ≤ size) :
    (current rest).body.length ≤ size := by
  cases rest with
  | nil => exact Nat.zero_le _
  | cons rec rest => exact hfits rec List.mem_cons_self

/-- After a stretch the connection follows the records again. -/
theorem Outcome.follows {result : Progress × RecordReader}
    (h : Outcome (current rest) part size result)
    (hdelivered : c.delivered = done.map Record.pair) (herrors : c.errors = [])
    (hstream : part ++ c.stream = wireOf rest) (hended : rest = [] -> part = []) :
    exists done' rest' part', done' ++ rest' = done ++ rest ∧
      Follows size done' rest' part' (settle c result) := by
  cases h with
  | waits a r hsize hpart hholds hagrees =>
      refine ⟨done, rest, part, rfl, ?_⟩
      refine ⟨hdelivered, herrors, hstream, hsize, hholds, ?_, hended⟩
      intro a' ha'
      cases ha'
      exact hagrees
  | done r hsize hpart hholds =>
      cases rest with
      | nil =>
          have hpos := (current []).wire_pos
          rw [hended rfl] at hpart
          rw [← hpart] at hpos
          exact absurd hpos (Nat.lt_irrefl 0)
      | cons rec rest =>
          refine ⟨done ++ [rec], rest, [], by simp, ?_⟩
          refine ⟨?_, herrors, ?_, hsize, hholds _, ?_, fun _ => rfl⟩
          · simp only [settle, hdelivered, List.map_append]
            rfl
          · rw [hpart] at hstream
            exact List.append_cancel_left hstream
          · intro a ha
            cases ha

theorem Follows.called (h : Follows size done rest part c)
    (hfits : forall rec, rec ∈ rest -> rec.body.length ≤ size) :
    exists result, read c.reader = .ok result ∧
      Outcome (current rest) part size result := by
  have hsize := h.size_eq
  have hlen := Nat.le_of_lt h.holds.length_lt
  have hcurrent := current_fits hfits
  rw [← hsize] at hcurrent
  rw [← hsize]
  exact read_outcome h.holds hcurrent (cutOff_of_record h.stream h.ended hlen)

theorem Follows.arrived (h : Follows size done rest part c)
    (hfits : forall rec, rec ∈ rest -> rec.body.length ≤ size) {a : Await} {n : Nat}
    (ha : c.future = some a) (hrequested : n ≤ a.requested c.reader)
    (hpos : 0 < n) (hstream : n ≤ c.stream.length) :
    (part ++ c.stream.take n ++ c.stream.drop n = wireOf rest ∧
      (rest = [] -> part ++ c.stream.take n = [])) ∧
      exists result, resume (c.stream.take n) a c.reader = .ok result ∧
        Outcome (current rest) (part ++ c.stream.take n) size result := by
  have hsize := h.size_eq
  have hagrees := h.agrees a ha
  have hlonger : part ++ c.stream.take n ++ c.stream.drop n = wireOf rest := by
    rw [List.append_assoc, List.take_append_drop]
    exact h.stream
  have hended : rest = [] -> part ++ c.stream.take n = [] := by
    intro hnone
    have hempty := h.stream
    rw [hnone] at hempty
    have hstream' : c.stream = [] := (List.append_eq_nil_iff.mp hempty).2
    rw [hstream'] at hstream
    exact absurd hstream (by simp; omega)
  have hbytes : (c.stream.take n).length = n := by
    rw [List.length_take]
    omega
  have hlen : (part ++ c.stream.take n).length ≤ (current rest).wire.length := by
    have hroom := (AwaitAgrees.requested h.holds hagrees).2
    rw [List.length_append, hbytes]
    omega
  have hcurrent := current_fits hfits
  rw [← hsize] at hcurrent
  refine ⟨⟨hlonger, hended⟩, ?_⟩
  rw [← hsize]
  exact resume_outcome h.holds hagrees (by rw [hbytes]; exact hrequested) hcurrent
    (cutOff_of_record hlonger hended hlen)

/-- Every event that can happen succeeds, and the connection follows the records. -/
theorem Follows.next (h : Follows size done rest part c)
    (hfits : forall rec, rec ∈ rest -> rec.body.length ≤ size) {e : Event}
    (henabled : Enabled e c) :
    exists c', next e c = .ok c' ∧
      exists done' rest' part', done' ++ rest' = done ++ rest ∧
        Follows size done' rest' part' c' := by
  cases e with
  | called =>
      rcases h.called hfits with ⟨result, hread, houtcome⟩
      refine ⟨settle c result, ?_, ?_⟩
      · simp only [RecordReader.next, hread, ok_bind, pure_eq_ok]
      · exact houtcome.follows h.delivered h.errors h.stream h.ended
  | arrived n =>
      rcases henabled with ⟨a, ha, hpos, hrequested, hstream⟩
      rcases h.arrived hfits ha hrequested hpos hstream with
        ⟨⟨hlonger, hended⟩, result, hresume, houtcome⟩
      refine ⟨settle { c with stream := c.stream.drop n } result, ?_, ?_⟩
      · simp only [RecordReader.next, ha, hresume, ok_bind, pure_eq_ok]
      · exact houtcome.follows (c := { c with stream := c.stream.drop n }) h.delivered
          h.errors hlonger hended
  | dropped =>
      refine ⟨_, rfl, done, rest, part, rfl, ?_⟩
      exact ⟨h.delivered, h.errors, h.stream, h.size_eq, h.holds,
        (fun _ ha => by cases ha), h.ended⟩
  | transportFailed =>
      refine ⟨_, rfl, done, rest, part, rfl, ?_⟩
      exact ⟨h.delivered, h.errors, h.stream, h.size_eq, h.holds,
        (fun _ ha => by cases ha), h.ended⟩
  | decrypted bytes =>
      rcases h.holds.decrypted henabled.2 with ⟨hholds, hsame⟩
      refine ⟨_, rfl, done, rest, part, rfl, ?_⟩
      refine ⟨h.delivered, h.errors, h.stream, hsame.trans h.size_eq, hholds, ?_,
        h.ended⟩
      intro a ha
      rw [henabled.1] at ha
      cases ha

theorem start_follows (buf : List UInt8) (records : List Record) :
    Follows buf.length [] records [] (start buf (wireOf records)) := by
  have hnone : 0 < RecordHeader.len := by decide
  refine ⟨rfl, rfl, rfl, rfl, ?_, (fun _ ha => by cases ha), fun _ => rfl⟩
  exact Holds.header rfl hnone rfl rfl (Nat.zero_le _) rfl

theorem run_follows {buf : List UInt8} {records : List Record}
    (hfits : forall rec, rec ∈ records -> rec.body.length ≤ buf.length)
    {events : List Event}
    (hrun : Run step (start buf (wireOf records)) events c) :
    exists done rest part, records = done ++ rest ∧
      Follows buf.length done rest part c := by
  apply hrun.invariant
    (P := fun c => exists done rest part, records = done ++ rest ∧
      Follows buf.length done rest part c)
  · intro e c c' h hstep
    rcases h with ⟨done, rest, part, hrecords, hfollows⟩
    have hrest : forall rec, rec ∈ rest -> rec.body.length ≤ buf.length := by
      intro rec hrec
      exact hfits rec (by simp [hrecords, hrec])
    rcases hfollows.next hrest hstep.1 with
      ⟨c'', hnext, done', rest', part', hsame, hfollows'⟩
    have hc : c'' = c' := Except.ok.inj (hnext.symm.trans hstep.2)
    subst hc
    exact ⟨done', rest', part', hrecords.trans hsame.symm, hfollows'⟩
  · exact ⟨[], records, [], rfl, start_follows buf records⟩

theorem Follows.done_unique {done' rest' : List Record} {part' : List UInt8}
    {size' : Nat} (h : Follows size done rest part c)
    (h' : Follows size' done' rest' part' c')
    (hrecords : done ++ rest = done' ++ rest') (hstream : c.stream = c'.stream) :
    done = done' := by
  have hbefore {d r d' r' : List Record} {p p' s : List UInt8}
      (hsame : d ++ r = d' ++ r') (hp : p ++ s = wireOf r) (hp' : p' ++ s = wireOf r')
      (hlt : p.length < (current r).wire.length) (hended : r = [] -> p = []) :
      d'.length ≤ d.length := by
    by_contra hmore
    -- the first record of `r` would have been handed over on the other side
    have hskip := congrArg (List.drop d.length) hsame
    rw [List.drop_left, List.drop_append_of_le_length (by omega)] at hskip
    cases hd : d'.drop d.length with
    | nil =>
        have hnone := List.drop_eq_nil_iff.mp hd
        omega
    | cons rec more =>
        rw [hd] at hskip
        subst hskip
        have hlong : (wireOf (rec :: more ++ r')).length =
            rec.wire.length + (wireOf more).length + (wireOf r').length := by
          simp only [wireOf, List.cons_append, List.flatMap_cons, List.flatMap_append,
            List.length_append]
          omega
        rw [← hp, ← hp', List.length_append, List.length_append] at hlong
        have hcurrent : (current (rec :: more ++ r')).wire = rec.wire := rfl
        rw [hcurrent] at hlt
        omega
  have hle := hbefore hrecords h.stream (by rw [hstream]; exact h'.stream)
    h.holds.length_lt h.ended
  have hge := hbefore hrecords.symm h'.stream (by rw [← hstream]; exact h.stream)
    h'.holds.length_lt h'.ended
  exact (List.append_inj hrecords (Nat.le_antisymm hge hle)).1

theorem Follows.finished (h : Follows size done rest part c) (hstream : c.stream = []) :
    rest = [] := by
  cases rest with
  | nil => rfl
  | cons rec rest =>
      have hlt : part.length < rec.wire.length := h.holds.length_lt
      have hwire := congrArg List.length h.stream
      rw [hstream, List.append_nil] at hwire
      simp only [wireOf, List.flatMap_cons, List.length_append] at hwire
      omega

/-- However the stream of some records arrives and wherever reads are dropped, the
reader hands over the records in order, each once and whole; it never faults or fails,
never asks for nothing, and has handed over what a reader that is never dropped has. -/
theorem reading_survives_cancellation {buf : List UInt8} {records : List Record}
    (hfits : forall rec, rec ∈ records -> rec.body.length ≤ buf.length)
    {events : List Event}
    (hrun : Run step (start buf (wireOf records)) events c) :
    (exists done rest part, records = done ++ rest ∧
      c.delivered = done.map Record.pair ∧
      wireOf done ++ part ++ c.stream = wireOf records ∧
      (c.stream = [] -> rest = [])) ∧
      c.errors = [] ∧
      (forall a, c.future = some a -> 0 < a.requested c.reader) ∧
      (forall e, Enabled e c -> exists c', next e c = .ok c') ∧
      forall buf' events' c',
        (forall rec, rec ∈ records -> rec.body.length ≤ buf'.length) ->
          Run step (start buf' (wireOf records)) events' c' ->
            (forall e, e ∈ events' -> e ≠ .dropped) -> c'.stream = c.stream ->
              c'.delivered = c.delivered := by
  rcases run_follows hfits hrun with ⟨done, rest, part, hrecords, hfollows⟩
  have hrest : forall rec, rec ∈ rest -> rec.body.length ≤ buf.length := by
    intro rec hrec
    exact hfits rec (by simp [hrecords, hrec])
  refine ⟨⟨done, rest, part, hrecords, hfollows.delivered, ?_, ?_⟩, hfollows.errors, ?_, ?_, ?_⟩
  · rw [List.append_assoc, hfollows.stream, hrecords]
    simp [wireOf]
  · exact hfollows.finished
  · intro a ha
    exact (AwaitAgrees.requested hfollows.holds (hfollows.agrees a ha)).1
  · intro e henabled
    rcases hfollows.next hrest henabled with ⟨c', hnext, _⟩
    exact ⟨c', hnext⟩
  · intro buf' events' c' hfits' hrun' _ hstream
    rcases run_follows hfits' hrun' with ⟨done', rest', part', hrecords', hfollows'⟩
    have hsame := hfollows'.done_unique hfollows (by rw [← hrecords, ← hrecords']) hstream
    rw [hfollows'.delivered, hfollows.delivered, hsame]

def oneByteRecord : Record where
  header := ⟨[23, 3, 3, 0, 1]⟩
  body := [0xAA]
  header_length := rfl
  decodes := rfl
  body_length := rfl

/-- The read of a record is dropped inside its header and read on. -/
theorem reading_survives_one_drop :
    exists c : Connection, c.delivered = [oneByteRecord.pair] ∧ c.errors = [] := by
  have hfits : forall rec, rec ∈ [oneByteRecord] ->
      rec.body.length ≤ (List.replicate 8 (0 : UInt8)).length := by
    intro rec hrec
    rw [List.mem_singleton.mp hrec]
    decide
  have hrun : Run step (start (List.replicate 8 0) (wireOf [oneByteRecord]))
      [.called, .arrived 3, .dropped, .called, .arrived 2, .arrived 1]
      { reader :=
          { buf := 0xAA :: List.replicate 7 0
            decoded := 1
            pending := 0
            hdr := [23, 3, 3, 0, 1]
            hdrHave := 0
            bodyActive := false
            bodyLen := 1 }
        future := none
        stream := []
        delivered := [oneByteRecord.pair]
        errors := [] } := by
    refine .cons ⟨rfl, rfl⟩ (.cons ⟨⟨_, rfl, ?_⟩, rfl⟩ (.cons ⟨?_, rfl⟩
      (.cons ⟨rfl, rfl⟩ (.cons ⟨⟨_, rfl, ?_⟩, rfl⟩
        (.cons ⟨⟨_, rfl, ?_⟩, rfl⟩ (.nil _))))))
    · decide
    · exact Option.some_ne_none _
    · decide
    · decide
  exact ⟨_, rfl, (reading_survives_cancellation hfits hrun).2.1⟩

end RecordReader
end EmbeddedTls
end TWA
