import TWA.Render.Snapshots

/-!
# How the rows settle

While the display stays as it is, every tick takes two bands off what is left to
send, and a band that was sent is not sent again.
-/

namespace TWA

open Foundation
open Foundation.Pixels
open Display (DisplayState SubtitleLine)
open Screen (screenW)

namespace Render

/-!
## The rows that are to be seen

The history is followed by the row that is being typed, and the last twelve of
these rows are shown.
-/

def allRows (d : Display) : List SubtitleLine :=
  d.history ++ if d.isTyping then [{ text := d.curLine, color := d.curColor }] else []

def lastRows (d : Display) : List SubtitleLine :=
  (allRows d).drop ((allRows d).length - visible)

/-- The slots from the first one on. The caret is behind the last row, or in the first
slot of an empty screen, and only while listening. -/
def view (d : Display) : List Slot :=
  let listen := d.state == .listening
  if allRows d = [] then
    if listen then [{ txt := [], col := black, caret := true }] else []
  else
    (lastRows d).mapIdx fun k row =>
      { txt := row.text
        col := row.color
        caret := listen && k + 1 == (lastRows d).length }

section View

variable {d : Display}

theorem length_allRows :
    (allRows d).length = d.history.length + if d.isTyping then 1 else 0 := by
  unfold allRows
  rw [List.length_append]
  split <;> rfl

theorem length_lastRows : (lastRows d).length = min visible (allRows d).length := by
  unfold lastRows
  rw [List.length_drop]
  omega

theorem desiredRow_eq (d : Display) (slot : Nat) : desiredRow d slot = (view d)[slot]? := by
  have htotal := length_allRows (d := d)
  unfold desiredRow view
  simp only [← htotal]
  by_cases hnone : allRows d = []
  · rw [if_pos (by rw [hnone]; rfl), if_pos hnone]
    cases d.state == .listening with
    | false => rfl
    | true =>
        cases slot with
        | zero => rfl
        | succ slot => rfl
  · have hpos : (allRows d).length ≠ 0 := fun hzero => hnone (List.length_eq_zero_iff.mp hzero)
    rw [if_neg hpos, if_neg hnone, List.getElem?_mapIdx]
    have hrow : (lastRows d)[slot]? = (allRows d)[(allRows d).length - visible + slot]? := by
      unfold lastRows
      rw [List.getElem?_drop]
    rw [hrow]
    generalize hfirst : (allRows d).length - visible = first
    by_cases hbelow : first + slot ≥ (allRows d).length
    · rw [if_pos hbelow, List.getElem?_eq_none hbelow]
      rfl
    · have hlast : (first + slot == (allRows d).length - 1) =
          (slot + 1 == (lastRows d).length) := by
        rw [Bool.eq_iff_iff, beq_iff_eq, beq_iff_eq, length_lastRows]
        omega
      have hcur : (if d.isTyping && slot + 1 == (lastRows d).length then
            some { text := d.curLine, color := d.curColor : SubtitleLine }
          else d.history[first + slot]?) = (allRows d)[first + slot]? := by
        rw [← hlast]
        unfold allRows at htotal hbelow ⊢
        cases htyping : d.isTyping with
        | false => simp
        | true =>
            rw [htyping, if_pos rfl, List.length_append] at htotal hbelow
            rw [if_pos rfl]
            simp only [List.length_singleton] at hbelow
            by_cases hin : first + slot < d.history.length
            · rw [List.getElem?_append_left hin, List.length_append, if_neg]
              simp only [List.length_singleton, Bool.true_and, beq_iff_eq]
              omega
            · have hend : first + slot = d.history.length := by omega
              rw [List.getElem?_append_right (by omega), hend, Nat.sub_self,
                List.length_append, if_pos]
              · rfl
              · simp
      rw [if_neg hbelow, hlast, ← hcur]
      split <;> rfl

end View

/-! ## What is left to send -/

def dirtyIn (font : Font) (disp : Display) (slots : List (Fin visible))
    (drawn : Fin visible -> Slot) : Nat :=
  slots.countP fun (slot : Fin visible) =>
    (paintingOf font (desiredRow disp slot) (drawn slot)).isSome

def pending (font : Font) (disp : Display) (key : Nat) (r : Renderer) : Nat :=
  (if r.barKey = key then 0 else 1) + dirtyIn font disp (List.finRange visible) r.drawn

def Writable (s : Screen) : Prop :=
  s.ok = true ∧ s.outcomes = []

def Painted (font : Font) (slot : Fin visible) (p : Painting) (ui ui' : Ui) : Prop :=
  exists band, HasBand { ui.renderer with band := band } ∧
    ui' =
      { renderer :=
          { ui.renderer with
            band := band
            drawn := Function.update ui.renderer.drawn slot p.slot }
        screen := ui.screen.afterWrite (windowOf slot p) (slotPanel font slot p.slot) }

def BarDrawn (font : Font) (input : TickInput) (ui ui' : Ui) : Prop :=
  exists band, HasBand { ui.renderer with band := band } ∧
    ui' =
      { renderer :=
          { ui.renderer with
            band := band
            barKey := barKey input.disp input.clock input.nowMs }
        screen :=
          ui.screen.afterWrite barWindow
            (barPicture font input.disp input.clock input.nowMs) }

section Writes

variable {font : Font} {advance : Char -> Nat} {glyph : Char -> List (Int × Int)}
  {ui ui' : Ui} {disp : Display} {clock : Ntp.Clock} {nowMs : UInt32} {slot : Fin visible}
  {wanted : Option Slot} {d : Slot} {p : Painting}

theorem push_of_writable {s : Screen} {win : Window} {pixels : Panel} (h : Writable s) :
    s.push win pixels = (true, s.afterWrite win pixels) := by
  apply Screen.push_of_not_fails h.1
  intro hfails
  rcases hfails with ⟨garbage, rest, houtcomes⟩
  rw [h.2] at houtcomes
  cases houtcomes

theorem Writable.afterWrite {s : Screen} (h : Writable s) (win : Window) (pixels : Panel) :
    Writable (s.afterWrite win pixels) := by
  constructor
  · exact h.1
  · unfold Screen.afterWrite
    rw [h.2]
    rfl

theorem paintingOf_again (h : paintingOf font wanted d = some p) :
    paintingOf font wanted p.slot = none := by
  unfold paintingOf at h
  cases wanted with
  | none =>
      simp only at h
      split at h
      · cases h
      · cases h
        rfl
  | some wanted =>
      have hslot : p.slot = wanted := by
        simp only at h
        split at h
        · cases h
        · split at h
          · cases h
            rfl
          · cases h
            rfl
      rw [hslot]
      exact if_pos rfl

theorem drawRows_paints (hfont : font.Typesets advance glyph) (hband : HasBand ui.renderer)
    (h : Writable ui.screen) (rest : List (Fin visible)) {pushed : Nat}
    (hroom : pushed < maxPush)
    (hp : paintingOf font (desiredRow disp slot) (ui.renderer.drawn slot) = some p) :
    exists ui', Painted font slot p ui ui' ∧
      drawRows font disp (slot :: rest) pushed ui = drawRows font disp rest (pushed + 1) ui' := by
  rcases paintRow_eq font slot hband (paintingOf_within hfont hp) with ⟨band, hband', hpaint⟩
  rw [push_of_writable h] at hpaint
  refine ⟨_, ⟨band, hband', rfl⟩, ?_⟩
  rw [drawRows_painted rest hroom hp, hpaint]
  rfl

theorem Painted.band (h : Painted font slot p ui ui') : HasBand ui'.renderer := by
  rcases h with ⟨band, hband, hui⟩
  rw [hui]
  exact hband

theorem Painted.writable (h : Painted font slot p ui ui') (hwritable : Writable ui.screen) :
    Writable ui'.screen := by
  rcases h with ⟨band, _, hui⟩
  rw [hui]
  exact hwritable.afterWrite _ _

theorem BarDrawn.band {input : TickInput} (h : BarDrawn font input ui ui') :
    HasBand ui'.renderer := by
  rcases h with ⟨band, hband, hui⟩
  rw [hui]
  exact hband

theorem BarDrawn.writable {input : TickInput} (h : BarDrawn font input ui ui')
    (hwritable : Writable ui.screen) : Writable ui'.screen := by
  rcases h with ⟨band, _, hui⟩
  rw [hui]
  exact hwritable.afterWrite _ _

theorem pushBar_draws (font : Font) (disp : Display) (clock : Ntp.Clock) (nowMs : UInt32)
    (hband : HasBand ui.renderer) (h : Writable ui.screen) :
    exists ui', BarDrawn font ⟨disp, clock, nowMs⟩ ui ui' ∧
      pushBar font disp clock nowMs ui = (true, ui') := by
  rcases pushBar_eq font disp clock nowMs hband with ⟨band, hband', hbar⟩
  rw [push_of_writable h] at hbar
  exact ⟨_, ⟨band, hband', rfl⟩, hbar⟩

/-! ### The loop over the rows -/

structure RowsDrawn (font : Font) (disp : Display) (slots : List (Fin visible))
    (budget : Nat) (ui ui' : Ui) : Prop where
  writable : Writable ui'.screen
  torn : forall i j, ui.screen.torn i j = false -> ui'.screen.torn i j = false
  pushes : ui'.screen.pushes =
    ui.screen.pushes + min budget (dirtyIn font disp slots ui.renderer.drawn)
  left : dirtyIn font disp slots ui'.renderer.drawn =
    dirtyIn font disp slots ui.renderer.drawn - budget
  others : forall slot, slot ∉ slots -> ui'.renderer.drawn slot = ui.renderer.drawn slot
  band : HasBand ui'.renderer
  same : ui'.renderer =
    { ui.renderer with drawn := ui'.renderer.drawn, band := ui'.renderer.band }

theorem dirtyIn_cons (slot : Fin visible) (rest : List (Fin visible))
    (drawn : Fin visible -> Slot) :
    dirtyIn font disp (slot :: rest) drawn =
      dirtyIn font disp rest drawn +
        if (paintingOf font (desiredRow disp slot) (drawn slot)).isSome then 1 else 0 :=
  List.countP_cons

theorem dirtyIn_congr {slots : List (Fin visible)} {drawn drawn' : Fin visible -> Slot}
    (h : forall slot, slot ∈ slots -> drawn slot = drawn' slot) :
    dirtyIn font disp slots drawn = dirtyIn font disp slots drawn' := by
  apply List.countP_congr
  intro slot hslot
  rw [h slot hslot]

theorem RowsDrawn.refl (hband : HasBand ui.renderer) (h : Writable ui.screen)
    {slots : List (Fin visible)} {budget : Nat}
    (hnone : min budget (dirtyIn font disp slots ui.renderer.drawn) = 0) :
    RowsDrawn font disp slots budget ui ui where
  writable := h
  torn := fun _ _ htorn => htorn
  pushes := by rw [hnone, Nat.add_zero]
  left := by omega
  others := fun _ _ => rfl
  band := hband
  same := rfl

theorem afterWrite_torn {s : Screen} {win : Window} {pixels : Panel} {i j : Nat}
    (h : s.torn i j = false) : (s.afterWrite win pixels).torn i j = false := by
  unfold Screen.afterWrite
  simp only [h, Bool.false_and]

theorem RowsDrawn.clean {rest : List (Fin visible)} {budget : Nat} (hslot : slot ∉ rest)
    (hp : paintingOf font (desiredRow disp slot) (ui.renderer.drawn slot) = none)
    (hrest : RowsDrawn font disp rest budget ui ui') :
    RowsDrawn font disp (slot :: rest) budget ui ui' := by
  have hkept := hrest.others slot hslot
  constructor
  · exact hrest.writable
  · exact hrest.torn
  · rw [hrest.pushes, dirtyIn_cons, hp]
    rfl
  · rw [dirtyIn_cons, dirtyIn_cons, hkept, hp, hrest.left]
    rfl
  · intro slot' hslot'
    exact hrest.others slot' (fun hmem => hslot' (List.mem_cons_of_mem slot hmem))
  · exact hrest.band
  · exact hrest.same

theorem RowsDrawn.painted {rest : List (Fin visible)} {budget : Nat} {mid : Ui}
    (hslot : slot ∉ rest)
    (hp : paintingOf font (desiredRow disp slot) (ui.renderer.drawn slot) = some p)
    (hpainted : Painted font slot p ui mid) (hrest : RowsDrawn font disp rest budget mid ui') :
    RowsDrawn font disp (slot :: rest) (budget + 1) ui ui' := by
  rcases hpainted with ⟨band, _, hmid⟩
  have hdrawn : mid.renderer.drawn = Function.update ui.renderer.drawn slot p.slot := by
    rw [hmid]
  have hpushes : mid.screen.pushes = ui.screen.pushes + 1 := by
    rw [hmid]
    rfl
  have hsame : dirtyIn font disp rest mid.renderer.drawn =
      dirtyIn font disp rest ui.renderer.drawn := by
    apply dirtyIn_congr
    intro slot' hslot'
    have hne : slot' ≠ slot := fun heq => hslot (heq ▸ hslot')
    rw [hdrawn, Function.update_of_ne hne]
  have hdirty : dirtyIn font disp (slot :: rest) ui.renderer.drawn =
      dirtyIn font disp rest ui.renderer.drawn + 1 := by
    rw [dirtyIn_cons, hp]
    rfl
  have hkept : ui'.renderer.drawn slot = p.slot := by
    rw [hrest.others slot hslot, hdrawn, Function.update_self]
  constructor
  · exact hrest.writable
  · intro i j htorn
    apply hrest.torn
    rw [hmid]
    exact afterWrite_torn htorn
  · rw [hrest.pushes, hpushes, hsame, hdirty]
    omega
  · rw [dirtyIn_cons, hkept, paintingOf_again hp, hrest.left, hsame, hdirty]
    simp only [Option.isSome_none, Bool.false_eq_true, if_false]
    omega
  · intro slot' hslot'
    rw [List.mem_cons, not_or] at hslot'
    rw [hrest.others slot' hslot'.2, hdrawn, Function.update_of_ne hslot'.1]
  · exact hrest.band
  · rw [hrest.same, hmid]

theorem drawRows_drawn (disp : Display) (hfont : font.Typesets advance glyph)
    (slots : List (Fin visible)) (hnodup : slots.Nodup) (pushed : Nat)
    (hband : HasBand ui.renderer) (h : Writable ui.screen) :
    RowsDrawn font disp slots (maxPush - pushed) ui (drawRows font disp slots pushed ui) := by
  induction slots generalizing pushed ui with
  | nil => exact RowsDrawn.refl hband h (Nat.min_zero _)
  | cons slot rest ih =>
      rw [List.nodup_cons] at hnodup
      by_cases hfull : maxPush ≤ pushed
      · rw [drawRows_full _ hfull, Nat.sub_eq_zero_of_le hfull]
        exact RowsDrawn.refl hband h (Nat.zero_min _)
      · cases hp : paintingOf font (desiredRow disp slot) (ui.renderer.drawn slot) with
        | none =>
            rw [drawRows_clean rest pushed hp]
            exact (ih hnodup.2 pushed hband h).clean hnodup.1 hp
        | some p =>
            have hroom : pushed < maxPush := Nat.lt_of_not_le hfull
            rcases drawRows_paints hfont hband h rest hroom hp with ⟨mid, hpainted, hgoes⟩
            have hrest := ih hnodup.2 (pushed + 1) hpainted.band (hpainted.writable h)
            have hbudget : maxPush - pushed = maxPush - (pushed + 1) + 1 := by omega
            rw [hgoes, hbudget]
            exact hrest.painted hnodup.1 hp hpainted

/-! ### One tick -/

structure FrameDrawn (font : Font) (disp : Display) (key : Nat) (ui ui' : Ui) : Prop where
  writable : Writable ui'.screen
  torn : forall i j, ui.screen.torn i j = false -> ui'.screen.torn i j = false
  pushes : ui'.screen.pushes =
    ui.screen.pushes + min maxPush (pending font disp key ui.renderer)
  left : pending font disp key ui'.renderer = pending font disp key ui.renderer - maxPush
  band : HasBand ui'.renderer
  same : ui'.renderer =
    { ui.renderer with
      drawn := ui'.renderer.drawn
      barKey := ui'.renderer.barKey
      band := ui'.renderer.band }

theorem FrameDrawn.taken {key : Nat} (h : FrameDrawn font disp key ui ui') :
    ui'.renderer.taken = ui.renderer.taken := by
  rw [h.same]

theorem FrameDrawn.startMs {key : Nat} (h : FrameDrawn font disp key ui ui') :
    ui'.renderer.startMs = ui.renderer.startMs := by
  rw [h.same]

theorem drawFrame_drawn (disp : Display) (clock : Ntp.Clock) (nowMs : UInt32)
    (hfont : font.Typesets advance glyph) (hband : HasBand ui.renderer)
    (h : Writable ui.screen) :
    FrameDrawn font disp (barKey disp clock nowMs) ui
      (drawFrame font disp clock nowMs ui) := by
  have hslots : (List.finRange visible).Nodup := List.nodup_finRange visible
  unfold drawFrame
  by_cases hkey : ui.renderer.barKey = barKey disp clock nowMs
  · rw [if_neg (by rw [hkey, bne_self_eq_false]; exact Bool.false_ne_true)]
    have hrows := drawRows_drawn disp hfont _ hslots 0 hband h
    constructor
    · exact hrows.writable
    · exact hrows.torn
    · unfold pending
      rw [hrows.pushes, if_pos hkey, Nat.zero_add]
      rfl
    · unfold pending
      rw [hrows.left, hrows.same, if_pos hkey, Nat.zero_add, Nat.zero_add]
      rfl
    · exact hrows.band
    · rw [hrows.same]
  · rw [if_pos (by rw [bne_iff_ne]; exact hkey)]
    rcases pushBar_draws font disp clock nowMs hband h with ⟨ui', hbar, hpush⟩
    rw [hpush]
    have hrows := drawRows_drawn disp hfont _ hslots 1 hbar.band (hbar.writable h)
    rcases hbar with ⟨band, _, hdrawn⟩
    have hsame : dirtyIn font disp (List.finRange visible) ui'.renderer.drawn =
        dirtyIn font disp (List.finRange visible) ui.renderer.drawn := by
      rw [hdrawn]
    have hpushes : ui'.screen.pushes = ui.screen.pushes + 1 := by
      rw [hdrawn]
      rfl
    constructor
    · exact hrows.writable
    · intro i j htorn
      apply hrows.torn
      rw [hdrawn]
      exact afterWrite_torn htorn
    · unfold pending
      rw [hrows.pushes, hpushes, hsame, if_neg hkey]
      unfold maxPush
      omega
    · have hkey' : (drawRows font disp (List.finRange visible) 1 ui').renderer.barKey =
          barKey disp clock nowMs := by
        rw [hrows.same, hdrawn]
      unfold pending
      rw [hrows.left, hsame, if_neg hkey, if_pos hkey']
      unfold maxPush
      omega
    · exact hrows.band
    · rw [hrows.same, hdrawn]

theorem tick_drawn (disp : Display) (clock : Ntp.Clock)
    (hfont : font.Typesets advance glyph) (hband : HasBand ui.renderer)
    (h : Writable ui.screen) (htaken : ui.renderer.taken = true)
    (hheld : ¬Held nowMs ui.renderer) :
    FrameDrawn font disp (barKey disp clock nowMs) ui (tick font disp clock nowMs ui) := by
  rw [tick_ready font disp clock nowMs h.1, if_neg hheld, if_pos htaken]
  exact drawFrame_drawn disp clock nowMs hfont hband h

theorem tick_held (font : Font) (disp : Display) (clock : Ntp.Clock)
    (hok : ui.screen.ok = true) (hheld : Held nowMs ui.renderer) :
    tick font disp clock nowMs ui = started nowMs ui := by
  rw [tick_ready font disp clock nowMs hok, if_pos hheld]

end Writes

/-! ### When nothing is left -/

/-- The display and the key of the bar are the given ones. -/
def Same (disp : Display) (key : Nat) (input : TickInput) : Prop :=
  input.disp = disp ∧ barKey input.disp input.clock input.nowMs = key

section Clean

variable {font : Font} {ui : Ui} {disp : Display} {key : Nat}

theorem pending_le (font : Font) (disp : Display) (key : Nat) (r : Renderer) :
    pending font disp key r ≤ 13 := by
  have hrows : dirtyIn font disp (List.finRange visible) r.drawn ≤ 12 := by
    have hcount := List.countP_le_length (l := List.finRange visible)
      (p := fun slot : Fin visible =>
        (paintingOf font (desiredRow disp slot) (r.drawn slot)).isSome)
    rw [List.length_finRange] at hcount
    exact hcount
  unfold pending
  split
  · omega
  · omega

theorem rowPicture_of_clean {wanted : Option Slot} {d : Slot}
    (h : paintingOf font wanted d = none) (x y : Int) :
    rowPicture font d x y = rowPicture font (wanted.getD Slot.default) x y := by
  unfold paintingOf at h
  cases wanted with
  | none =>
      simp only at h
      split at h
      · rename_i hblank
        rw [rowPicture_blank hblank.1 hblank.2]
        exact (rowPicture_blank rfl rfl x y).symm
      · cases h
  | some wanted =>
      simp only at h
      split at h
      · rename_i hsame
        rw [hsame]
        rfl
      · split at h
        · cases h
        · cases h

theorem clean_of_pending (h : pending font disp key ui.renderer = 0) :
    ui.renderer.barKey = key ∧
      forall slot : Fin visible,
        paintingOf font (desiredRow disp slot) (ui.renderer.drawn slot) = none := by
  unfold pending at h
  constructor
  · by_cases hkey : ui.renderer.barKey = key
    · exact hkey
    · rw [if_neg hkey] at h
      omega
  · have hrows : dirtyIn font disp (List.finRange visible) ui.renderer.drawn = 0 := by omega
    intro slot
    have hslot := List.countP_eq_zero.mp hrows slot (List.mem_finRange slot)
    simpa using hslot

end Clean

end Render
end TWA
