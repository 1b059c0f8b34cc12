import TWA.Render.Healing
import TWA.Render.WriteLog

/-!
# Recovery

When writes succeed again and the clock goes on, the renderer comes to rest after
finitely many ticks: the panel is initialised, the rest of it is cleared, and
what differs is painted.  Which pixels are then right can be read off the log of
the writes.
-/

namespace TWA

open Foundation
open Foundation.Pixels
open Screen (screenW screenH)

namespace Render

def after (font : Font) (calls : Nat -> TickInput) (ui : Ui) : Nat -> Ui
  | 0 => ui
  | n + 1 =>
      tick font (calls n).disp (calls n).clock (calls n).nowMs (after font calls ui n)

def rank (font : Font) (disp : Display) (key : Nat) (ui : Ui) : Nat :=
  (if ui.screen.ok then 0 else 1) + (if ui.renderer.startMs = 0 then 1 else 0) +
    if ui.renderer.taken then pending font disp key ui.renderer
    else 14 + (240 - ui.renderer.clearRow)

/-- A pixel is written again: the bar written last is not the wanted one, or the pixel is
in the part of a row that differs from what was written there last. -/
def Rewritten (font : Font) (disp : Display) (key : Nat) (log : List Attempt) (i j : Nat) :
    Prop :=
  (j < barH ∧ barWritten log ≠ some key) ∨
    exists (slot : Fin visible) (p : Painting),
      paintingOf font (desiredRow disp slot) (rowWritten log slot) = some p ∧
        (windowOf slot p).Holds i j

/-- All pixels are written again over which the last write has failed. -/
def Mends (font : Font) (disp : Display) (key : Nat) (log : List Attempt) : Prop :=
  forall i j, i < screenW -> j < screenH -> damaged log i j = true ->
    Rewritten font disp key log i j

def waitsFrom (ui : Ui) : UInt32 :=
  if ui.screen.ok then ui.renderer.startMs else ui.renderer.recoverAt

section Progress

variable {font : Font} {advance : Char -> Nat} {glyph : Char -> List (Int × Int)}
  {P : Display -> Prop} {ui : Ui} {disp : Display} {key : Nat} {input : TickInput}

/-! ## Every tick waits or gets on -/

theorem rank_held (hok : ui.screen.ok = true) (hheld : Held input.nowMs ui.renderer)
    (htick : tick font input.disp input.clock input.nowMs ui = started input.nowMs ui) :
    (tick font input.disp input.clock input.nowMs ui = ui ∧
        ¬2000 ≤ (input.nowMs - waitsFrom ui).toNat) ∨
      rank font disp key (tick font input.disp input.clock input.nowMs ui) <
        rank font disp key ui := by
  have hwaits : waitsFrom ui = ui.renderer.startMs := by
    unfold waitsFrom
    rw [if_pos hok]
  have hshort : (input.nowMs - startedAt input.nowMs ui.renderer).toNat < 800 :=
    UInt32.lt_iff_toNat_lt.mp hheld
  have hlong : ¬2000 ≤ (input.nowMs - startedAt input.nowMs ui.renderer).toNat := by omega
  by_cases hzero : ui.renderer.startMs = 0
  · have hnow : startedAt input.nowMs ui.renderer = input.nowMs := if_pos hzero
    by_cases hwait : input.nowMs = 0
    · have hsame : started input.nowMs ui = ui := by
        unfold started
        rw [hnow, hwait, ← hzero]
      refine Or.inl ⟨htick.trans hsame, ?_⟩
      rw [hnow] at hlong
      rw [hwaits, hzero, ← hwait]
      exact hlong
    · refine Or.inr ?_
      rw [htick]
      unfold rank started
      rw [hnow]
      simp only [if_pos hzero, if_neg hwait]
      unfold pending
      simp only
      omega
  · refine Or.inl ⟨htick.trans (started_of_ne input.nowMs hzero), ?_⟩
    have hkept : startedAt input.nowMs ui.renderer = ui.renderer.startMs := if_neg hzero
    rw [hwaits, ← hkept]
    exact hlong

theorem rank_clearNext (hband : HasBand ui.renderer) (hwritable : Writable ui.screen)
    (htaken : ui.renderer.taken = false) (hrow : ui.renderer.clearRow < 240) :
    rank font disp key (clearNext ui) < rank font disp key ui := by
  have hcleared := clearNext_cleared hband
  have hok : (clearNext ui).screen.ok = true := by
    rw [hcleared.screen, push_of_writable hwritable]
    exact (hwritable.afterWrite _ _).1
  have hle := pending_le font disp key (clearNext ui).renderer
  unfold rank
  rw [hok, hcleared.startMs, hwritable.1, htaken]
  cases htaken' : (clearNext ui).renderer.taken with
  | true =>
      simp only [if_true, Bool.false_eq_true, if_false]
      omega
  | false =>
      rw [hcleared.clearRow]
      unfold clearWindow lineH
      simp only [if_true, Bool.false_eq_true, if_false]
      omega

theorem tick_progress (hfont : font.Typesets advance glyph) (hsame : Same disp key input)
    (hagrees : Agrees font P ui) (hwrites : ui.screen.outcomes = [])
    (hrank : rank font disp key ui ≠ 0) :
    (tick font input.disp input.clock input.nowMs ui = ui ∧
        ¬2000 ≤ (input.nowMs - waitsFrom ui).toNat) ∨
      rank font disp key (tick font input.disp input.clock input.nowMs ui) <
        rank font disp key ui := by
  rcases hsame with ⟨hdisp, hkey⟩
  subst hdisp hkey
  rcases tick_cases font input.disp input.clock input.nowMs ui with
    ⟨hok, hearly, htick⟩ | ⟨hok, _, htick⟩ | ⟨hok, hheld, htick⟩ | ⟨hok, hlive, htaken, htick⟩ |
    ⟨hok, hlive, htaken, htick⟩
  · refine Or.inl ⟨htick, ?_⟩
    have hshort : (input.nowMs - ui.renderer.recoverAt).toNat < 2000 :=
      UInt32.lt_iff_toNat_lt.mp hearly
    unfold waitsFrom
    rw [hok, if_neg Bool.false_ne_true]
    omega
  · refine Or.inr ?_
    rw [htick, tryRecover_writes hwrites]
    unfold rank
    rw [hok]
    unfold pending
    simp only [if_true, Bool.false_eq_true, if_false]
    omega
  · exact rank_held hok hheld htick
  · refine Or.inr ?_
    have huntouched := hagrees.untouched htaken
    rw [htick]
    exact rank_clearNext hagrees.band ⟨hok, hwrites⟩ htaken huntouched.clearRow_lt
  · refine Or.inr ?_
    have hdrawn := tick_drawn input.disp input.clock hfont hagrees.band ⟨hok, hwrites⟩ htaken
      hlive
    have hleft := hdrawn.left
    have hstart := startMs_of_live hlive
    unfold rank at hrank ⊢
    rw [hok, htaken, if_neg hstart] at hrank
    rw [hdrawn.writable.1, hdrawn.taken, hdrawn.startMs, hok, htaken, if_neg hstart, hleft]
    unfold maxPush
    simp only [if_true] at hrank ⊢
    omega

theorem settled_of_rank (hrank : rank font disp key ui = 0) :
    ui.screen.ok = true ∧ ui.renderer.startMs ≠ 0 ∧ ui.renderer.taken = true ∧
      pending font disp key ui.renderer = 0 := by
  unfold rank at hrank
  refine ⟨?_, ?_, ?_, ?_⟩
  · cases hok : ui.screen.ok with
    | true => rfl
    | false =>
        rw [hok, if_neg Bool.false_ne_true] at hrank
        omega
  · intro hzero
    rw [if_pos hzero] at hrank
    omega
  · cases htaken : ui.renderer.taken with
    | true => rfl
    | false =>
        rw [htaken, if_neg Bool.false_ne_true] at hrank
        omega
  · cases htaken : ui.renderer.taken with
    | true =>
        rw [htaken, if_pos rfl] at hrank
        omega
    | false =>
        rw [htaken, if_neg Bool.false_ne_true] at hrank
        omega

theorem rank_stays (hfont : font.Typesets advance glyph) (hsame : Same disp key input)
    (hband : HasBand ui.renderer) (hwrites : ui.screen.outcomes = [])
    (hrank : rank font disp key ui = 0) :
    rank font disp key (tick font input.disp input.clock input.nowMs ui) = 0 := by
  rcases hsame with ⟨hdisp, hkey⟩
  subst hdisp hkey
  rcases settled_of_rank hrank with ⟨hok, hstart, htaken, hnone⟩
  by_cases hheld : Held input.nowMs ui.renderer
  · rw [tick_held font input.disp input.clock hok hheld, started_of_ne input.nowMs hstart]
    exact hrank
  · have hdrawn := tick_drawn input.disp input.clock hfont hband ⟨hok, hwrites⟩ htaken hheld
    have hleft := hdrawn.left
    rw [hnone] at hleft
    unfold rank
    rw [hdrawn.writable.1, hdrawn.taken, hdrawn.startMs, htaken, if_neg hstart, hleft]
    rfl

/-! ## The end -/

theorem tick_writes (hfont : font.Typesets advance glyph) (hband : HasBand ui.renderer)
    (hwrites : ui.screen.outcomes = []) :
    (tick font input.disp input.clock input.nowMs ui).screen.outcomes = [] := by
  rcases tick_cases font input.disp input.clock input.nowMs ui with
    ⟨_, _, htick⟩ | ⟨_, _, htick⟩ | ⟨_, _, htick⟩ | ⟨hok, _, _, htick⟩ |
    ⟨hok, hlive, htaken, _⟩
  · rw [htick]
    exact hwrites
  · rw [htick, tryRecover_writes hwrites]
    exact hwrites
  · rw [htick]
    exact hwrites
  · rw [htick, (clearNext_cleared hband).screen, push_of_writable ⟨hok, hwrites⟩]
    exact (Writable.afterWrite ⟨hok, hwrites⟩ _ _).2
  · have hdrawn := tick_drawn input.disp input.clock hfont hband ⟨hok, hwrites⟩ htaken hlive
    exact hdrawn.writable.2

theorem not_remaining (hrank : rank font disp key ui = 0) (i j : Nat) :
    ¬Remaining font disp key ui.renderer i j := by
  rcases settled_of_rank hrank with ⟨_, _, htaken, hnone⟩
  have hclean := clean_of_pending hnone
  intro h
  rcases h with hclear | hbar | ⟨slot, p, hp, _⟩
  · rw [htaken] at hclear
    exact Bool.noConfusion hclear.1
  · exact hbar.2 hclean.1
  · rw [hclean.2 slot] at hp
    cases hp

theorem onTrack_of_agrees (hfont : font.Typesets advance glyph)
    (hrange : input.disp.InRange) (hagrees : Agrees font Display.InRange ui) {i j : Nat}
    (hi : i < screenW) (hj : j < screenH) (htorn : ui.screen.torn i j = false) :
    OnTrack font input ui i j := by
  have hremembers := hagrees.pixels i j hi hj htorn
  cases htaken : ui.renderer.taken with
  | false =>
      by_cases hcleared : j < ui.renderer.clearRow
      · have huntouched := hagrees.untouched htaken
        exact onTrack_black hrange hi hj huntouched.drawn_eq huntouched.barKey_eq
          (hremembers.cleared htaken hcleared)
      · exact Or.inl (Or.inl ⟨htaken, Nat.not_lt.mp hcleared⟩)
  | true =>
      by_cases hbar : j < barH
      · by_cases hkey : ui.renderer.barKey = barKey input.disp input.clock input.nowMs
        · have hshown : ui.screen.panel i j =
              barPicture font input.disp input.clock input.nowMs i j := by
            rcases hremembers.bar htaken hbar with hnever | ⟨disp, clock, nowMs, hP, hfor, hcolor⟩
            · have hlt := barKey_lt input.clock input.nowMs hrange
              rw [hkey] at hnever
              exact absurd hnever (Nat.ne_of_lt hlt)
            · rw [hcolor, barPicture_of_barKey font hP hrange (hfor.symm.trans hkey)]
          exact Or.inr (hshown.trans (frame_bar hbar).symm)
        · exact Or.inl (Or.inr (Or.inl ⟨hbar, hkey⟩))
      · by_cases hgap : j < subY
        · have hblack := hremembers.gap htaken (Nat.not_lt.mp hbar) hgap
          exact Or.inr (hblack.trans (frame_gap hbar hgap).symm)
        · have hslot := inSlot_slotOf hj (Nat.not_lt.mp hgap)
          have hrow := hremembers.row htaken (slotOf j hj) hslot
          unfold OnTrack
          rw [hrow, frame_row hslot hi]
          cases hp : paintingOf font (desiredRow input.disp (slotOf j hj))
              (ui.renderer.drawn (slotOf j hj)) with
          | none => exact Or.inr (rowPicture_of_clean hp _ _)
          | some p =>
              have hwithin := paintingOf_within hfont hp
              by_cases hin : (windowOf (slotOf j hj) p).Holds i j
              · exact Or.inl (Or.inr (Or.inr ⟨slotOf j hj, p, hp, hin⟩))
              · refine Or.inr ?_
                rw [← slotPanel_painted hp]
                apply paintingOf_outside hfont hp
                · exact ⟨Int.natCast_nonneg i, Int.ofNat_lt.mpr hi⟩
                · intro hcolumns
                  exact hin ((windowOf_holds_iff hwithin.1).mpr ⟨hcolumns, hslot⟩)

end Progress

section Runs

variable {font : Font} {advance : Char -> Nat} {glyph : Char -> List (Int × Int)} {ui : Ui}
  {calls : Nat -> TickInput} {disp : Display} {key : Nat}

theorem after_keeps (hfont : font.Typesets advance glyph) (hrange : disp.InRange)
    (hsame : forall n, Same disp key (calls n)) (hagrees : Agrees font Display.InRange ui)
    (hwrites : ui.screen.outcomes = []) (n : Nat) :
    Agrees font Display.InRange (after font calls ui n) ∧
      (after font calls ui n).screen.outcomes = [] := by
  induction n with
  | zero => exact ⟨hagrees, hwrites⟩
  | succ n ih =>
      have hrange' : (calls n).disp.InRange := (hsame n).1 ▸ hrange
      exact ⟨tick_agrees hfont hrange' ih.1, tick_writes hfont ih.1.band ih.2⟩

theorem frame_same (hrange : disp.InRange) (hsame : forall n, Same disp key (calls n))
    (n i j : Nat) : frame font (calls n) i j = frame font (calls 0) i j := by
  have hdisp : (calls n).disp = (calls 0).disp := (hsame n).1.trans (hsame 0).1.symm
  have hkey := (hsame n).2.trans (hsame 0).2.symm
  have hbar := barPicture_of_barKey font ((hsame n).1 ▸ hrange) ((hsame 0).1 ▸ hrange) hkey
  unfold frame
  rw [hbar, hdisp]

theorem after_onTrack (hfont : font.Typesets advance glyph) (hrange : disp.InRange)
    (hsame : forall n, Same disp key (calls n)) (hagrees : Agrees font Display.InRange ui)
    (hwrites : ui.screen.outcomes = []) {i j : Nat} (hi : i < screenW) (hj : j < screenH)
    (n : Nat) :
    OnTrack font (calls 0) (after font calls ui n) i j <-> OnTrack font (calls 0) ui i j := by
  induction n with
  | zero => exact Iff.rfl
  | succ n ih =>
      rcases after_keeps hfont hrange hsame hagrees hwrites n with ⟨hagrees', hwrites'⟩
      have hsame' : Same (calls 0).disp
          (barKey (calls 0).disp (calls 0).clock (calls 0).nowMs) (calls n) :=
        ⟨(hsame n).1.trans (hsame 0).1.symm, (hsame n).2.trans (hsame 0).2.symm⟩
      rw [← ih]
      exact tick_onTrack hfont hi hj ((hsame 0).1 ▸ hrange) hsame' hagrees' hwrites'

theorem after_rests (hfont : font.Typesets advance glyph) (hrange : disp.InRange)
    (hsame : forall n, Same disp key (calls n)) (hagrees : Agrees font Display.InRange ui)
    (hwrites : ui.screen.outcomes = [])
    (hclock : RunsOn 2000 (fun n => (calls n).nowMs)) :
    exists N, forall n, N ≤ n -> rank font disp key (after font calls ui n) = 0 := by
  apply rank_ends fun m ui => 2000 ≤ ((calls m).nowMs - waitsFrom ui).toNat
  · intro n hrank
    rcases after_keeps hfont hrange hsame hagrees hwrites n with ⟨hagrees', hwrites'⟩
    exact tick_progress hfont (hsame n) hagrees' hwrites' hrank
  · intro n s
    exact hclock.passes (waitsFrom s) n
  · intro n hrank
    rcases after_keeps hfont hrange hsame hagrees hwrites n with ⟨hagrees', hwrites'⟩
    exact rank_stays hfont (hsame n) hagrees'.band hwrites' hrank

/-! ## What the log decides -/

theorem exists_ne_color (c : UInt16) : exists c', c' ≠ c := by
  by_cases hzero : c = 0
  · exact ⟨1, by rw [hzero]; decide⟩
  · exact ⟨0, Ne.symm hzero⟩

theorem cleared_of_behind {r : Renderer} {j : Nat} (h : ¬(r.taken = false ∧ r.clearRow ≤ j)) :
    r.taken = true ∨ j < r.clearRow := by
  cases htaken : r.taken with
  | true => exact Or.inl rfl
  | false => exact Or.inr (Nat.lt_of_not_le fun hrow => h ⟨htaken, hrow⟩)

theorem torn_of_damaged {log : List Attempt} (h : Logged log ui) {i j : Nat}
    (hi : i < screenW) (hj : j < screenH) (hdamaged : damaged log i j = true) :
    ui.screen.torn i j = true ∧ ¬(ui.renderer.taken = false ∧ ui.renderer.clearRow ≤ j) := by
  have hbehind : ¬(ui.renderer.taken = false ∧ ui.renderer.clearRow ≤ j) := by
    rintro ⟨hmore, hrow⟩
    rw [h.ahead hmore i j hrow] at hdamaged
    exact Bool.false_ne_true hdamaged
  refine ⟨?_, hbehind⟩
  rw [h.torn_eq i j hi hj (cleared_of_behind hbehind), hdamaged]

/-- Behind what is cleared, the log tells what remains to be painted. -/
theorem remaining_iff {log : List Attempt} (h : Logged log ui) {i j : Nat}
    (hkey : key ≠ UInt64.size - 1)
    (hbehind : ¬(ui.renderer.taken = false ∧ ui.renderer.clearRow ≤ j)) :
    Remaining font disp key ui.renderer i j <-> Rewritten font disp key log i j := by
  have hbar : ui.renderer.barKey ≠ key <-> barWritten log ≠ some key := by
    rw [h.barKey_eq]
    cases barWritten log with
    | none => exact ⟨fun _ => Option.some_ne_none key |>.symm, fun _ => Ne.symm hkey⟩
    | some last => exact not_congr Option.some_inj.symm
  unfold Remaining Rewritten
  simp only [hbar, h.drawn_eq, hbehind, false_or]

/-- If the log mends, every pixel is going to be painted or is right. -/
theorem onTrack_of_mends (hfont : font.Typesets advance glyph) {log : List Attempt}
    {input : TickInput} (hlogged : Logged log ui) (hagrees : Agrees font Display.InRange ui)
    (hrange : input.disp.InRange)
    (hmends : Mends font input.disp (barKey input.disp input.clock input.nowMs) log)
    {i j : Nat} (hi : i < screenW) (hj : j < screenH) : OnTrack font input ui i j := by
  have hmax := Nat.ne_of_lt (barKey_lt input.clock input.nowMs hrange)
  cases htorn : ui.screen.torn i j with
  | false => exact onTrack_of_agrees hfont hrange hagrees hi hj htorn
  | true =>
      refine Or.inl ?_
      by_cases hbehind : ui.renderer.taken = false ∧ ui.renderer.clearRow ≤ j
      · exact Or.inl hbehind
      · apply (remaining_iff hlogged hmax hbehind).mpr
        apply hmends i j hi hj
        rw [← hlogged.torn_eq i j hi hj (cleared_of_behind hbehind), htorn]

/-- What a run from boot leaves when failing writes leave something else. -/
theorem ticked_boot (hfont : font.Typesets advance glyph) {panel : Panel}
    {outcomes outcomes' : List Screen.Outcome} {inputs : List TickInput}
    (hinputs : forall input, input ∈ inputs -> input.disp.InRange)
    (hwrites : (ticked font inputs (boot panel outcomes)).screen.outcomes = [])
    (hfailures : Screen.SameFailures outcomes outcomes') :
    Logged (attempts font inputs (boot panel outcomes))
        (ticked font inputs (boot panel outcomes')) ∧
      Agrees font Display.InRange (ticked font inputs (boot panel outcomes')) ∧
      (ticked font inputs (boot panel outcomes')).screen.outcomes = [] := by
  rcases ticked_same hfailures inputs panel with ⟨hticked, hlog⟩
  rcases ticked_logged hfont hinputs (boot_logged panel outcomes')
    (boot_agrees panel outcomes') with ⟨hlogged, hagrees⟩
  rw [List.nil_append, ← hlog] at hlogged
  refine ⟨hlogged, hagrees, ?_⟩
  have houtcomes := congrArg (fun ui : Ui => ui.screen.outcomes) hticked
  unfold Ui.leaving Screen.leaving at houtcomes
  simp only [hwrites, List.map_nil] at houtcomes
  exact List.map_eq_nil_iff.mp houtcomes.symm

/-- After any run from boot: once writes succeed, and display and bar key stay as they are
while the clock goes on, the intended picture is shown after finitely many ticks, whatever
the failed writes have left, just if all pixels are written again over which the last
write has failed. -/
theorem picture_heals_iff (hfont : font.Typesets advance glyph) {panel : Panel}
    {outcomes : List Screen.Outcome} {inputs : List TickInput}
    (hinputs : forall input, input ∈ inputs -> input.disp.InRange)
    (hwrites : (ticked font inputs (boot panel outcomes)).screen.outcomes = [])
    (hrange : disp.InRange) (hsame : forall n, Same disp key (calls n))
    (hclock : RunsOn 2000 (fun n => (calls n).nowMs)) :
    (forall outcomes', Screen.SameFailures outcomes outcomes' ->
      exists N, forall n, N ≤ n ->
        Shows font (calls n)
          (after font calls (ticked font inputs (boot panel outcomes')) n)) <->
      Mends font disp key (attempts font inputs (boot panel outcomes)) := by
  have hkey : barKey (calls 0).disp (calls 0).clock (calls 0).nowMs = key := (hsame 0).2
  have hdisp : (calls 0).disp = disp := (hsame 0).1
  have hmax : key ≠ UInt64.size - 1 := by
    rw [← hkey]
    exact Nat.ne_of_lt (barKey_lt _ _ (hdisp ▸ hrange))
  constructor
  · intro hheals i j hi hj hdamaged
    -- A failed write may leave any colour but the right one.
    rcases exists_ne_color (frame font (calls 0) i j) with ⟨c, hc⟩
    have hfailures := Screen.sameFailures_leaving outcomes c
    rcases ticked_boot hfont hinputs hwrites hfailures with ⟨hlogged, hagrees, hwrites'⟩
    rcases torn_of_damaged hlogged hi hj hdamaged with ⟨htorn, hbehind⟩
    rcases hheals _ hfailures with ⟨M, hM⟩
    have hend : OnTrack font (calls 0) (after font calls
        (ticked font inputs (boot panel (outcomes.map (Screen.Outcome.leaving c)))) M) i j :=
      Or.inr ((hM M (Nat.le_refl M) i j hi hj).trans (frame_same hrange hsame M i j))
    have hstart := (after_onTrack hfont hrange hsame hagrees hwrites' hi hj M).mp hend
    unfold OnTrack at hstart
    rw [hkey, hdisp] at hstart
    rcases hstart with hremaining | hright
    · exact (remaining_iff hlogged hmax hbehind).mp hremaining
    · rw [boot_leaving, (ticked_leaving font c inputs _).1] at hright htorn
      have hleft : ((ticked font inputs (boot panel outcomes)).leaving c).screen.panel i j = c :=
        if_pos htorn
      exact absurd (hleft.symm.trans hright) hc
  · intro hmends outcomes' hfailures
    rcases ticked_boot hfont hinputs hwrites hfailures with ⟨hlogged, hagrees, hwrites'⟩
    rcases after_rests hfont hrange hsame hagrees hwrites' hclock with ⟨N, hrests⟩
    refine ⟨N, fun n hn i j hi hj => ?_⟩
    have hstart : OnTrack font (calls 0) (ticked font inputs (boot panel outcomes')) i j := by
      rw [← hkey, ← hdisp] at hmends
      exact onTrack_of_mends hfont hlogged hagrees (hdisp ▸ hrange) hmends hi hj
    have hend := (after_onTrack hfont hrange hsame hagrees hwrites' hi hj n).mpr hstart
    unfold OnTrack at hend
    rw [hkey, hdisp] at hend
    rcases hend with hremaining | hright
    · exact absurd hremaining (not_remaining (hrests n hn) i j)
    · rw [hright, frame_same hrange hsame n i j]

end Runs

/-! ## Runs by hand -/

def emptyCalls (start n : Nat) : TickInput :=
  emptyTick (UInt32.ofNat (start + n))

theorem emptyCalls_same (start n : Nat) :
    Same Display.new (barKey Display.new Ntp.Clock.new 1) (emptyCalls start n) :=
  ⟨rfl, barKey_timeless rfl _ 1⟩

theorem emptyCalls_runsOn (start : Nat) :
    RunsOn 2000 (fun n => (emptyCalls start n).nowMs) := by
  have hsize : UInt32.size = 4294967296 := rfl
  refine ⟨fun n => start + n, fun n => rfl, ?_, ?_, ?_⟩
  · intro n
    exact Nat.le_succ _
  · intro n
    show start + (n + 1) + 2000 ≤ start + n + UInt32.size
    rw [hsize]
    omega
  · intro bound
    exact ⟨bound, Nat.le_add_left bound start⟩

theorem emptyTicks_inRange (times : List UInt32) :
    forall input, input ∈ times.map emptyTick -> input.disp.InRange := by
  intro input hinput
  rcases List.mem_map.mp hinput with ⟨nowMs, _, htick⟩
  rw [← htick]
  exact new_inRange

/-- The boot bars are written; the white that is left of them is what a failed write
leaves. -/
def clearOutcomes (clears : List Screen.Outcome) : List Screen.Outcome :=
  List.replicate (1 + Screen.testBars.length) .written ++ clears

def white : Screen.Outcome :=
  .failed (fun _ _ => 0xFFFF)

/-- The first write of the clear fails; its pixel rows lie in the bar. -/
theorem picture_heals_iff_first_clear :
    (attempts dots [emptyTick 1, emptyTick 801]
        (boot (fun _ _ => 0) (clearOutcomes [white])) = [⟨.clear 0, false⟩] ∧
      forall outcomes', Screen.SameFailures (clearOutcomes [white]) outcomes' ->
        exists N, forall n, N ≤ n ->
          Shows dots (emptyCalls 802 n)
            (after dots (emptyCalls 802)
              (ticked dots [emptyTick 1, emptyTick 801] (boot (fun _ _ => 0) outcomes')) n)) := by
  have hlog : attempts dots [emptyTick 1, emptyTick 801]
      (boot (fun _ _ => 0) (clearOutcomes [white])) = [⟨.clear 0, false⟩] := by
    decide +kernel
  have hwrites : (ticked dots [emptyTick 1, emptyTick 801]
      (boot (fun _ _ => 0) (clearOutcomes [white]))).screen.outcomes = [] := by
    apply List.isEmpty_iff.mp
    decide +kernel
  refine ⟨hlog, ?_⟩
  apply (picture_heals_iff dots_typesets ?_ hwrites new_inRange (emptyCalls_same 802)
    (emptyCalls_runsOn 802)).mpr
  · rw [hlog]
    intro i j _ _ hdamaged
    have hin : (Write.clear 0).window.Holds i j := by
      by_contra hout
      exact absurd ((if_neg hout).symm.trans hdamaged) Bool.false_ne_true
    refine Or.inl ⟨Nat.lt_trans hin.2.2 (by decide), ?_⟩
    exact (Option.some_ne_none _).symm
  · exact emptyTicks_inRange [1, 801]

/-- The second write of the clear fails. Pixel rows 22 and 23 lie between the bar and the
first subtitle, and they keep what was there. -/
theorem failed_clear_never_heals :
    (ticked dots [emptyTick 1, emptyTick 801, emptyTick 802]
        (boot (fun _ _ => 0) (clearOutcomes [.written, white]))).screen.outcomes = [] ∧
      (exists key, forall n, Same Display.new key (emptyCalls 803 n)) ∧
      RunsOn 2000 (fun n => (emptyCalls 803 n).nowMs) ∧
      forall n,
        (after dots (emptyCalls 803)
            (ticked dots [emptyTick 1, emptyTick 801, emptyTick 802]
              (boot (fun _ _ => 0) (clearOutcomes [.written, white]))) n).screen.panel 0 22 ≠
          frame dots (emptyCalls 803 n) 0 22 := by
  have hlogged := ticked_logged dots_typesets (emptyTicks_inRange [1, 801, 802])
    (boot_logged (fun _ _ => 0) (clearOutcomes [.written, white])) (boot_agrees _ _)
  have hwrites : (ticked dots [emptyTick 1, emptyTick 801, emptyTick 802]
      (boot (fun _ _ => 0) (clearOutcomes [.written, white]))).screen.outcomes = [] := by
    apply List.isEmpty_iff.mp
    decide +kernel
  have hrow : (ticked dots [emptyTick 1, emptyTick 801, emptyTick 802]
      (boot (fun _ _ => 0) (clearOutcomes [.written, white]))).renderer.clearRow = 36 := by
    decide +kernel
  have hpixel : (ticked dots [emptyTick 1, emptyTick 801, emptyTick 802]
      (boot (fun _ _ => 0) (clearOutcomes [.written, white]))).screen.panel 0 22 = 0xFFFF := by
    decide +kernel
  have hagrees := hlogged.2
  have hsame := emptyCalls_same 803
  have hgap : forall input, frame dots input 0 22 = black := by
    intro input
    exact frame_gap (by decide) (by decide)
  refine ⟨hwrites, ⟨_, hsame⟩, emptyCalls_runsOn 803, ?_⟩
  intro n heq
  simp only [List.map_cons, List.map_nil] at hagrees
  generalize ticked dots [emptyTick 1, emptyTick 801, emptyTick 802]
    (boot (fun _ _ => 0) (clearOutcomes [.written, white])) = ui at *
  have honTrack : OnTrack dots (emptyCalls 803 0)
      (after dots (emptyCalls 803) ui n) 0 22 := by
    refine Or.inr ?_
    rw [heq, hgap, hgap]
  have hstart := (after_onTrack dots_typesets new_inRange hsame hagrees hwrites (by decide)
    (by decide) n).mp honTrack
  rcases hstart with hremaining | hright
  · rcases hremaining with hclear | hbar | ⟨slot, p, _, hin⟩
    · rw [hrow] at hclear
      exact absurd hclear.2 (by decide)
    · exact absurd hbar.1 (by decide)
    · have hbelow : subY ≤ 22 := Nat.le_trans (Nat.le_add_right _ _) hin.2.1
      exact absurd hbelow (by decide)
  · rw [hpixel, hgap] at hright
    exact absurd hright (by decide)

end Render
end TWA
