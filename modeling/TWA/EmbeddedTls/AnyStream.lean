import TWA.EmbeddedTls.RecordReader

/-!
# The record reader on any stream

Whatever bytes arrive, the fields of the reader stay in range: the header that is
being read, what has been handed over, and the body behind it.  So a read never
faults, and what it hands over stands at the end of the decoded part of the
buffer.
-/

namespace TWA
namespace EmbeddedTls

open Foundation
open Foundation.Exec

namespace RecordReader

/-- The header that is complete is valid, and its body is being read. -/
structure ReadsBody (header : RecordHeader) (r : RecordReader) : Prop where
  active : r.bodyActive = true
  decodes : RecordHeader.decode r.hdr = .ok header
  len : r.bodyLen = header.contentLength
  pending_le : r.pending ≤ r.bodyLen
  room : r.pending = 0 ∨ r.decoded + r.bodyLen ≤ r.buf.length

structure Sound (r : RecordReader) : Prop where
  hdr : r.hdr.length = RecordHeader.len
  have_le : r.hdrHave ≤ RecordHeader.len
  fits : r.decoded + r.pending ≤ r.buf.length
  idle : r.bodyActive = false -> r.pending = 0
  /-- A whole header that is kept between two calls is invalid. -/
  stuck : r.bodyActive = false -> r.hdrHave < RecordHeader.len ∨
    exists e, RecordHeader.decode r.hdr = .error e
  body : r.bodyActive = true -> exists header, ReadsBody header r ∧ r.pending < r.bodyLen

structure Ready (r : RecordReader) : Prop where
  hdr : r.hdr.length = RecordHeader.len
  decoded_le : r.decoded ≤ r.buf.length
  bodyActive : r.bodyActive = false
  hdrHave : r.hdrHave = 0
  pending : r.pending = 0

theorem Ready.sound {r : RecordReader} (h : Ready r) : Sound r := by
  refine ⟨h.hdr, ?_, ?_, fun _ => h.pending, ?_, ?_⟩
  · rw [h.hdrHave]
    exact Nat.zero_le _
  · rw [h.pending]
    exact h.decoded_le
  · intro _
    left
    rw [h.hdrHave]
    decide
  · intro hactive
    rw [h.bodyActive] at hactive
    cases hactive

def AwaitSound (r : RecordReader) : Await -> Prop
  | .header => r.bodyActive = false ∧ r.hdrHave < RecordHeader.len
  | .body header amount remain =>
      ReadsBody header r ∧ amount = r.bodyLen ∧ remain = r.bodyLen - r.pending ∧
        r.pending < r.bodyLen ∧ r.decoded + r.bodyLen ≤ r.buf.length

/-- What a stretch of a read leaves behind; a record that is handed over stands at the end
of what is decoded. -/
inductive Landed (size : Nat) : Progress × RecordReader -> Prop where
  | awaits (a : Await) (r : RecordReader) (hsize : r.buf.length = size) (hsound : Sound r)
      (hawait : AwaitSound r a) : Landed size (.awaits a, r)
  | ready (header : RecordHeader) (body : List UInt8) (r : RecordReader)
      (hsize : r.buf.length = size) (hready : Ready r)
      (htype : ContentType.of (header.header.getD 0 0) ≠ none)
      (hlen : header.contentLength = body.length)
      (hle : header.contentLength ≤ r.decoded)
      (hbody : body = (r.buf.take r.decoded).drop (r.decoded - header.contentLength)) :
      Landed size (.ready header body, r)
  | failed (e : TlsError) (r : RecordReader) (hsize : r.buf.length = size)
      (hsound : Sound r) : Landed size (.failed e, r)

variable {r : RecordReader} {header : RecordHeader}

theorem decode_eq_ok {hdr : List UInt8} (h : RecordHeader.decode hdr = .ok header) :
    header = ⟨hdr⟩ ∧ ContentType.of (hdr.getD 0 0) ≠ none := by
  unfold RecordHeader.decode at h
  split at h
  · cases h
  · rename_i contentType htype
    cases h
    exact ⟨rfl, by rw [htype]; exact Option.some_ne_none _⟩

theorem ReadsBody.sound (h : ReadsBody header r) (hhdr : r.hdr.length = RecordHeader.len)
    (hhave : r.hdrHave ≤ RecordHeader.len) (hfits : r.decoded + r.pending ≤ r.buf.length)
    (hmore : r.pending < r.bodyLen) : Sound r := by
  refine ⟨hhdr, hhave, hfits, ?_, ?_, fun _ => ⟨header, h, hmore⟩⟩
  · intro hidle
    rw [h.active] at hidle
    cases hidle
  · intro hidle
    rw [h.active] at hidle
    cases hidle

def Unfinished (result : Progress × RecordReader) : Prop :=
  forall header body, result.1 ≠ .ready header body

theorem advanceLoop_landed (h : ReadsBody header r) (hhdr : r.hdr.length = RecordHeader.len)
    (hhave : r.hdrHave ≤ RecordHeader.len)
    (hroom : r.decoded + r.bodyLen ≤ r.buf.length) :
    exists result, advanceLoop header r.bodyLen (r.bodyLen - r.pending) r = .ok result ∧
      Landed r.buf.length result ∧ (r.pending < r.bodyLen -> Unfinished result) := by
  have hle := h.pending_le
  unfold advanceLoop
  by_cases hmore : r.pending < r.bodyLen
  · rw [if_pos hmore, slice_of_le (by omega) (by omega)]
    refine ⟨_, rfl, Landed.awaits _ r rfl ?_ ⟨h, rfl, rfl, hmore, hroom⟩, ?_⟩
    · exact h.sound hhdr hhave (by omega) hmore
    · intro _ header' body hready
      cases hready
  · have hlen := h.len
    rw [if_neg hmore]
    unfold consume
    simp only
    rw [slice_of_le (Nat.le_add_right _ _) (by omega), ok_bind, sub_of_le (by omega), ok_bind]
    refine ⟨_, rfl, Landed.ready header _ _ rfl ?_ ?_ ?_ ?_ ?_, fun hless => absurd hless hmore⟩
    · refine ⟨hhdr, ?_, rfl, rfl, ?_⟩
      · simp only
        omega
      · simp only
        omega
    · have hdecodes := decode_eq_ok h.decodes
      rw [hdecodes.1]
      exact hdecodes.2
    · rw [List.length_drop, List.length_take]
      omega
    · simp only
      omega
    · simp only [Nat.add_sub_cancel]

theorem advance_landed (h : ReadsBody header r) (hhdr : r.hdr.length = RecordHeader.len)
    (hhave : r.hdrHave ≤ RecordHeader.len)
    (hfits : r.decoded + r.pending ≤ r.buf.length) :
    exists result, advance header r.bodyLen r = .ok result ∧
      Landed r.buf.length result ∧ (r.pending < r.bodyLen -> Unfinished result) := by
  have hle := h.pending_le
  unfold advance ensureContiguous
  by_cases hover : r.decoded + r.bodyLen > r.buf.length
  · have hempty : r.pending = 0 := by
      cases h.room with
      | inl hzero => exact hzero
      | inr hroom => omega
    rw [if_pos hover]
    by_cases hlarge : r.bodyLen > r.buf.length
    · rw [if_pos hlarge]
      refine ⟨_, rfl, Landed.failed _ r rfl ?_, ?_⟩
      · exact h.sound hhdr hhave hfits (by omega)
      · intro _ header' body hready
        cases hready
    · rw [if_neg hlarge, hempty, slice_of_le (Nat.le_add_right _ _) (by omega), ok_bind]
      have hnone : (r.buf.take (r.decoded + 0)).drop r.decoded = [] := by
        rw [Nat.add_zero, List.drop_eq_nil_iff, List.length_take]
        omega
      rw [hnone, splice_nil]
      simp only [pure_eq_ok, ok_bind]
      rw [sub_of_le (by simp), ok_bind]
      simp only [Nat.sub_zero]
      have hmoved : ReadsBody header { r with decoded := 0, pending := 0 } :=
        ⟨h.active, h.decodes, h.len, Nat.zero_le _, Or.inl rfl⟩
      have hloop := advanceLoop_landed hmoved hhdr hhave (by simp only; omega)
      simp only [Nat.sub_zero] at hloop
      exact hloop
  · rw [if_neg hover]
    simp only [pure_eq_ok, ok_bind]
    rw [sub_of_le hle, ok_bind]
    exact advanceLoop_landed h hhdr hhave (by omega)

theorem sound_of_idle (hhdr : r.hdr.length = RecordHeader.len)
    (hhave : r.hdrHave ≤ RecordHeader.len) (hidle : r.bodyActive = false)
    (hpending : r.pending = 0) (hdecoded : r.decoded ≤ r.buf.length)
    (hstuck : r.hdrHave < RecordHeader.len ∨ exists e, RecordHeader.decode r.hdr = .error e) :
    Sound r := by
  refine ⟨hhdr, hhave, by omega, fun _ => hpending, fun _ => hstuck, ?_⟩
  intro hactive
  rw [hidle] at hactive
  cases hactive

theorem headerLoop_landed (hhdr : r.hdr.length = RecordHeader.len)
    (hhave : r.hdrHave ≤ RecordHeader.len) (hidle : r.bodyActive = false)
    (hpending : r.pending = 0) (hdecoded : r.decoded ≤ r.buf.length) :
    exists result, headerLoop r = .ok result ∧ Landed r.buf.length result := by
  unfold headerLoop
  by_cases hmore : r.hdrHave < RecordHeader.len
  · have hsound := sound_of_idle hhdr hhave hidle hpending hdecoded (Or.inl hmore)
    rw [if_pos hmore, slice_of_le (by omega) (Nat.le_refl _)]
    exact ⟨_, rfl, Landed.awaits _ r rfl hsound ⟨hidle, hmore⟩⟩
  · rw [if_neg hmore]
    cases hdecodes : RecordHeader.decode r.hdr with
    | error e =>
        have hsound := sound_of_idle hhdr hhave hidle hpending hdecoded (Or.inr ⟨e, hdecodes⟩)
        exact ⟨_, rfl, Landed.failed e r rfl hsound⟩
    | ok header =>
        have hbody : ReadsBody header
            { r with bodyLen := header.contentLength, bodyActive := true } := by
          refine ⟨rfl, hdecodes, rfl, ?_, Or.inl hpending⟩
          simp only [hpending]
          exact Nat.zero_le _
        rcases advance_landed hbody hhdr hhave (by simp only; omega) with
          ⟨result, hrun, hlanded, _⟩
        exact ⟨result, hrun, hlanded⟩

theorem read_landed (h : Sound r) :
    exists result, read r = .ok result ∧ Landed r.buf.length result ∧ Unfinished result := by
  have hhdr := h.hdr
  unfold read
  cases hactive : r.bodyActive with
  | false =>
      rw [if_neg Bool.false_ne_true]
      unfold headerLoop
      by_cases hmore : r.hdrHave < RecordHeader.len
      · rw [if_pos hmore, slice_of_le (by omega) (Nat.le_refl _)]
        refine ⟨_, rfl, Landed.awaits _ r rfl h ⟨hactive, hmore⟩, ?_⟩
        intro header body hready
        cases hready
      · rw [if_neg hmore]
        rcases (h.stuck hactive).resolve_left hmore with ⟨e, hdecodes⟩
        rw [hdecodes]
        refine ⟨_, rfl, Landed.failed e r rfl h, ?_⟩
        intro header body hready
        cases hready
  | true =>
      rcases h.body hactive with ⟨header, hbody, hmore⟩
      rw [if_pos rfl, hbody.decodes]
      rcases advance_landed hbody h.hdr h.have_le h.fits with ⟨result, hrun, hlanded, hun⟩
      exact ⟨result, hrun, hlanded, hun hmore⟩

theorem resume_landed {bytes : List UInt8} {a : Await} (h : Sound r) (ha : AwaitSound r a)
    (hbytes : bytes.length ≤ a.requested r) :
    exists result, resume bytes a r = .ok result ∧ Landed r.buf.length result := by
  have hhdr := h.hdr
  unfold resume
  cases a with
  | header =>
      rcases ha with ⟨hidle, hhave⟩
      simp only [Await.requested] at hbytes
      have hpending := h.idle hidle
      have hfits := h.fits
      have hroom : r.hdrHave + bytes.length ≤ r.hdr.length := by omega
      refine headerLoop_landed (r := { r with
        hdr := splice r.hdr r.hdrHave bytes
        hdrHave := r.hdrHave + bytes.length }) ?_ ?_ hidle hpending (by simp only; omega)
      · simp only
        rw [length_splice hroom, hhdr]
      · simp only
        omega
  | body header amount remain =>
      rcases ha with ⟨hbody, hamount, hremain, hmore, hroom⟩
      simp only [Await.requested] at hbytes
      have hspace : r.decoded + r.pending + bytes.length ≤ r.buf.length := by omega
      have hsize := length_splice hspace
      subst hamount
      simp only
      rw [sub_of_le hbytes, ok_bind, ← hsize]
      have hbody' : ReadsBody header
          { r with
            buf := splice r.buf (r.decoded + r.pending) bytes
            pending := r.pending + bytes.length } := by
        refine ⟨hbody.active, hbody.decodes, hbody.len, ?_, Or.inr ?_⟩
        · simp only
          omega
        · simp only [hsize]
          exact hroom
      rcases advanceLoop_landed hbody' hhdr h.have_le (by simp only [hsize]; exact hroom) with
        ⟨result, hrun, hlanded, _⟩
      have hrest : r.bodyLen - (r.pending + bytes.length) = remain - bytes.length := by
        omega
      simp only [hrest] at hrun
      exact ⟨result, hrun, hlanded⟩

theorem new_ready (buf : List UInt8) : Ready (new buf) :=
  ⟨List.length_replicate, Nat.zero_le _, rfl, rfl, rfl⟩

theorem Ready.read_eq (h : Ready r) : read r = .ok (.awaits .header, r) := by
  have hhdr := h.hdr
  have hhave := h.hdrHave
  unfold read headerLoop
  rw [h.bodyActive, if_neg Bool.false_ne_true, if_pos (by rw [hhave]; decide),
    slice_of_le (by omega) (Nat.le_refl _)]
  rfl

theorem Ready.spliced (h : Ready r) {start : Nat} {bytes : List UInt8}
    (hfit : start + bytes.length ≤ r.decoded) :
    Ready { r with buf := splice r.buf start bytes } ∧
      (splice r.buf start bytes).length = r.buf.length := by
  have hle := h.decoded_le
  have hroom : start + bytes.length ≤ r.buf.length := by omega
  have hsize := length_splice hroom
  refine ⟨⟨h.hdr, ?_, h.bodyActive, h.hdrHave, h.pending⟩, hsize⟩
  simp only [hsize]
  exact hle

end RecordReader
end EmbeddedTls
end TWA
