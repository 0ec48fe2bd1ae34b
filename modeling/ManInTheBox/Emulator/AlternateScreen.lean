import ManInTheBox.Emulator.HiddenScreen

/-! # The alternate screen

The main screen waits unchanged while the alternate screen is shown, whatever is written to
the latter, and comes back as it was.
-/

namespace ManInTheBox.Emulator

open Library

namespace ScreenCursor

/-- A main screen is held exactly while the alternate one is shown, and a scroll region of
less than two rows is the whole screen. -/
structure Screens (this : ScreenCursor) : Prop where
  alternate_eq : this.alternate = this.main.isSome
  region : this.top < this.bottom ∨ this.top = 0 ∧ this.bottom = this.rows - 1

namespace Screens

variable {this : ScreenCursor}

theorem moveTo (h : this.Screens) (row col : ℕ) : (this.moveTo row col).Screens :=
  ⟨h.alternate_eq, h.region⟩

theorem linefeed (h : this.Screens) : this.linefeed.Screens := by
  unfold ScreenCursor.linefeed
  split
  · exact h
  · split
    · exact h.moveTo _ _
    · exact h

theorem reverseIndex (h : this.Screens) : this.reverseIndex.Screens := by
  unfold ScreenCursor.reverseIndex
  split
  · exact h
  · exact h.moveTo _ _

theorem wrap (h : this.Screens) : this.wrap.Screens := by
  unfold ScreenCursor.wrap
  split
  · exact (h.moveTo _ _).linefeed
  · exact h

theorem makeRoom (h : this.Screens) (width : ℕ) : (this.makeRoom width).Screens := by
  unfold ScreenCursor.makeRoom
  split
  · exact (h.moveTo _ _).linefeed
  · exact h

theorem putChar (h : this.Screens) (width : ℕ) : (this.putChar width).Screens := by
  unfold ScreenCursor.putChar
  split
  · exact h.moveTo _ _
  · exact (((h.moveTo _ _).wrap.makeRoom width).moveTo _ _).wrap

theorem setScrollRegion (h : this.Screens) (top bottom : ℕ) :
    (this.setScrollRegion top bottom).Screens := by
  unfold ScreenCursor.setScrollRegion
  split
  · rename_i hregion
    exact ⟨h.alternate_eq, .inl hregion.1⟩
  · exact ⟨h.alternate_eq, .inr ⟨rfl, rfl⟩⟩

theorem home (h : this.Screens) : this.home.Screens := ⟨h.alternate_eq, .inr ⟨rfl, rfl⟩⟩

theorem privateMode (h : this.Screens) (mode : UInt16) (set : Bool) :
    (this.privateMode mode set).Screens := by
  unfold ScreenCursor.privateMode ScreenCursor.enterAlternate ScreenCursor.leaveAlternate
  split
  · split
    · split
      · exact h
      · exact ⟨rfl, .inr ⟨rfl, rfl⟩⟩
    · split
      · exact h
      · split
        · refine ⟨rfl, ?_⟩
          simp only [returnTo]
          split
          · exact .inr ⟨rfl, rfl⟩
          · omega
        · rename_i hmain
          exact ⟨by simp [hmain], h.region⟩
  · exact h

theorem execute (h : this.Screens) (byte : UInt8) : (this.execute byte).Screens := by
  unfold ScreenCursor.execute
  split
  · exact h.linefeed
  · exact h.moveTo _ _
  · exact h.moveTo _ _
  · exact h.moveTo _ _
  · exact h

theorem csiDispatch (h : this.Screens) (params : Params) (intermediates : List UInt8)
    (action : Char) : (this.csiDispatch params intermediates action).Screens := by
  unfold ScreenCursor.csiDispatch
  split
  case h_11 => exact h.setScrollRegion _ _
  case h_12 => exact ⟨h.alternate_eq, h.region⟩
  case h_14 | h_15 =>
    split
    · induction params.flatten generalizing this with
      | nil => exact h
      | cons mode modes ih => exact ih (h.privateMode mode _)
    · exact h
  case h_16 => exact h
  all_goals exact h.moveTo _ _

theorem perform (h : this.Screens) (width : UnicodeWidth) (callback : Callback) :
    (this.perform width callback).Screens := by
  cases callback with
  | print c => exact h.putChar _
  | execute byte => exact h.execute byte
  | csiDispatch params intermediates ignore action => exact h.csiDispatch params intermediates action
  | escDispatch intermediates ignore byte =>
    simp only [ScreenCursor.perform]
    unfold ScreenCursor.escDispatch
    split
    · exact ⟨h.alternate_eq, h.region⟩
    · exact h.moveTo _ _
    · exact h.linefeed
    · exact h.linefeed.moveTo _ _
    · exact h.reverseIndex
    · exact h.home
    · exact h
  | hook | put | unhook | oscDispatch => exact h

theorem run (h : this.Screens) (width : UnicodeWidth) (callbacks : List Callback) :
    (callbacks.foldl (·.perform width ·) this).Screens := by
  induction callbacks generalizing this with
  | nil => exact h
  | cons callback callbacks ih => exact ih (h.perform width callback)

end Screens

end ScreenCursor

namespace Terminal

variable {width : UnicodeWidth} {this next mid : Terminal} {cols rows : ℕ}

theorem screens_of_feed_new (hspace : width ' ' = some 1) {callbacks : List Callback}
    (hreached : (Terminal.new cols rows).feed width callbacks = some this) :
    this.cursor.Screens := by
  obtain ⟨-, hat⟩ := at_of_feed_new hspace hreached
  rw [hat.cursor]
  exact ScreenCursor.Screens.run ⟨rfl, .inr ⟨rfl, rfl⟩⟩ width callbacks

theorem alternateScreen_iff (h : this.cursor.Screens) :
    this.alternateScreen = true ↔ this.savedMainScreen.isSome := by
  have halternate : this.alternateScreen = (this.savedMainScreen.map _).isSome := h.alternate_eq
  rw [halternate, Option.isSome_map]

theorem feed_append (this : Terminal) (callbacks callbacks' : List Callback) :
    this.feed width (callbacks ++ callbacks') =
      (this.feed width callbacks).bind fun next => next.feed width callbacks' :=
  List.foldlM_append

/-! ## The way there and back -/

/-- A switch is the private mode by itself. -/
theorem perform_switch {action : Char} (haction : action = 'h' ∨ action = 'l') {callback : Callback}
    (h : switches action callback) :
    this.perform width callback = this.handlePrivateMode 1049 (action == 'h') := by
  cases callback with
  | csiDispatch params intermediates ignore action' =>
    simp only [switches, Bool.and_eq_true, beq_iff_eq] at h
    obtain ⟨⟨rfl, hprivate⟩, hmode⟩ := h
    have hmem : 1049 ∈ params.flatten := by simpa using hmode
    rcases haction with rfl | rfl
    · simp only [perform, csiDispatch, hprivate, if_true, privateModes_eq, hmem]
    · simp only [perform, csiDispatch, hprivate, if_true, privateModes_eq, hmem]
  | print | execute | escDispatch | hook | put | unhook | oscDispatch =>
    exact absurd h Bool.false_ne_true

/-- The screen that is put away fits when it comes back. -/
theorem leaveAlternateScreen_eq (hin : this.cursor.Inside cols rows) (hscreens : this.cursor.Screens)
    (hmain : this.alternateScreen = false) (hmid : mid.cursor.Inside cols rows)
    (halternate : mid.alternateScreen = true) (hsaved : mid.savedMainScreen = some this.snapshot) :
    mid.leaveAlternateScreen = this := by
  have hrows : mid.rows = this.rows := hmid.rows_eq.trans hin.rows_eq.symm
  have hcols : mid.cols = this.cols := hmid.cols_eq.trans hin.cols_eq.symm
  have hrow : this.cursorRow < this.rows := hin.row_lt.trans_eq hin.rows_eq.symm
  have hcol : this.cursorCol < this.cols := hin.col_lt.trans_eq hin.cols_eq.symm
  have hle : this.scrollTop ≤ this.scrollBottom := hin.top_le
  have hlt : this.scrollBottom < this.rows := hin.bottom_lt.trans_eq hin.rows_eq.symm
  have hregion : this.scrollTop < this.scrollBottom ∨
      this.scrollTop = 0 ∧ this.scrollBottom = this.rows - 1 := hscreens.region
  have hnone : this.savedMainScreen = none := by
    have hnot : ¬ this.savedMainScreen.isSome := by simp [← alternateScreen_iff hscreens, hmain]
    simpa using hnot
  have hrow' : min this.cursorRow (this.rows - 1) = this.cursorRow := by omega
  have hcol' : min this.cursorCol (this.cols - 1) = this.cursorCol := by omega
  have htop : min this.scrollTop (this.rows - 1) = this.scrollTop := by omega
  have hbottom : min this.scrollBottom (this.rows - 1) = this.scrollBottom := by omega
  -- A region that is not proper is put back as the whole screen, which is what it was.
  have htop' : (if this.scrollBottom ≤ this.scrollTop then 0 else this.scrollTop) =
      this.scrollTop := by
    split <;> omega
  have hbottom' : (if this.scrollBottom ≤ this.scrollTop then this.rows - 1
      else this.scrollBottom) = this.scrollBottom := by
    split <;> omega
  have hback : mid.leaveAlternateScreen =
      { this with alternateScreen := false, savedMainScreen := none } := by
    simp only [leaveAlternateScreen, halternate, hsaved, Bool.not_true, Bool.false_eq_true,
      if_false, restore, snapshot, hrows, hcols, hrow', hcol', htop, hbottom, htop', hbottom']
  rw [hback, ← hmain, ← hnone]

/-- On the alternate screen the main screen waits. -/
structure Waits (main mid : Terminal) : Prop where
  alternate : mid.alternateScreen = true
  saved : mid.savedMainScreen = some main.snapshot

theorem Waits.enter (hmain : this.alternateScreen = false) {enter : Callback}
    (hswitch : switches 'h' enter) (hperform : this.perform width enter = some mid) :
    Waits this mid := by
  have hentered : this.enterAlternateScreen = some mid := by
    rwa [perform_switch (.inl rfl) hswitch] at hperform
  rw [enterAlternateScreen_eq this hmain, Option.map_eq_some_iff] at hentered
  obtain ⟨blank, -, rfl⟩ := hentered
  exact ⟨rfl, rfl⟩

/-- Whatever is written, it goes on waiting until it is called back. -/
theorem Waits.perform (h : Waits this mid) {callback : Callback} (hnot : ¬ switches 'l' callback)
    (hperform : mid.perform width callback = some next) : Waits this next := by
  by_cases hswitch : switches 'h' callback
  · have hagain : some mid = some next := by
      rw [← hperform, perform_switch (.inl rfl) hswitch]
      simp [handlePrivateMode, enterAlternateScreen, h.alternate]
    exact Option.some.inj hagain ▸ h
  · have hkeeps := @perform_keeps mid width callback (by
      rintro action (rfl | rfl)
      · simpa using hswitch
      · simpa using hnot) next hperform
    exact ⟨hkeeps.1.trans h.alternate, hkeeps.2.trans h.saved⟩

theorem Waits.feed (h : Waits this mid) {callbacks : List Callback}
    (hnot : ∀ callback ∈ callbacks, ¬ switches 'l' callback)
    (hfeed : mid.feed width callbacks = some next) : Waits this next := by
  induction callbacks generalizing mid with
  | nil => exact Option.some.inj hfeed ▸ h
  | cons callback callbacks ih =>
    rw [List.forall_mem_cons] at hnot
    rw [Terminal.feed, List.foldlM_cons, Option.bind_eq_bind, Option.bind_eq_some_iff] at hfeed
    obtain ⟨mid', hperform, hrest⟩ := hfeed
    exact ih (h.perform hnot.1 hperform) hnot.2 hrest

end Terminal

theorem fits_of_switches {width : UnicodeWidth} {cols : ℕ} {action : Char} {callback : Callback}
    (h : switches action callback) : callback.Fits width cols := by
  cases callback with
  | print c => exact absurd h Bool.false_ne_true
  | execute | csiDispatch | escDispatch | hook | put | unhook | oscDispatch => exact trivial

/-- On every screen that is reached a main screen is held exactly while the alternate one is shown.
Once the alternate screen is entered from the main screen, and until it is left, anything may be
written, a full reset and the way in again included: the way back leads to the very screen that was
left, and nothing but a character wider than the screen gets in the way. -/
theorem alternateScreen_returns (width : UnicodeWidth) (hspace : width ' ' = some 1) {cols rows : ℕ}
    {callbacks : List Callback} {this : Terminal}
    (hreached : (Terminal.new cols rows).feed width callbacks = some this) :
    (this.alternateScreen = true ↔ this.savedMainScreen.isSome) ∧
      (this.alternateScreen = false → ∀ enter between leave, switches 'h' enter →
        (∀ callback ∈ between, ¬ switches 'l' callback) → switches 'l' leave →
        ((∀ callback ∈ between, callback.Fits width (max cols 1)) →
          (this.feed width (enter :: (between ++ [leave]))).isSome) ∧
        ∀ after, this.feed width (enter :: (between ++ [leave])) = some after → after = this) := by
  have hscreens := Terminal.screens_of_feed_new hspace hreached
  obtain ⟨hok, hin⟩ := Terminal.ok_of_feed_new hspace hreached
  refine ⟨Terminal.alternateScreen_iff hscreens, ?_⟩
  intro hmain enter between leave henter hbetween hleave
  constructor
  · intro hfits
    rw [Terminal.feed_isSome_iff hspace hok hin]
    intro callback hcallback
    rcases List.mem_cons.mp hcallback with rfl | hcallback
    · exact fits_of_switches henter
    · rcases List.mem_append.mp hcallback with hcallback | hcallback
      · exact hfits callback hcallback
      · exact List.mem_singleton.mp hcallback ▸ fits_of_switches hleave
  · intro after hafter
    rw [← List.cons_append, Terminal.feed_append, Option.bind_eq_some_iff] at hafter
    obtain ⟨mid, hmid, hlast⟩ := hafter
    have hwaits : Terminal.Waits this mid := by
      rw [Terminal.feed, List.foldlM_cons, Option.bind_eq_bind, Option.bind_eq_some_iff] at hmid
      obtain ⟨entered, hentered, hrest⟩ := hmid
      exact (Terminal.Waits.enter hmain henter hentered).feed hbetween hrest
    have hreached' : (Terminal.new cols rows).feed width (callbacks ++ enter :: between) =
        some mid := by
      rw [Terminal.feed_append, hreached, Option.bind_some, hmid]
    have hmid' := (Terminal.ok_of_feed_new hspace hreached').2
    have hreturns : mid.perform width leave = some mid.leaveAlternateScreen :=
      Terminal.perform_switch (.inr rfl) hleave
    rw [Terminal.feed, List.foldlM_cons, hreturns, Option.bind_eq_bind, Option.bind_some,
      List.foldlM_nil,
      Terminal.leaveAlternateScreen_eq hin hscreens hmain hmid' hwaits.alternate hwaits.saved] at hlast
    exact (Option.some.inj hlast).symm

/-- A screen of one row, with a full reset and a second way in before the way back. -/
theorem alternateScreen_returns_row :
    ∃ this, (Terminal.new 3 1).feed exampleWidth [.print 'a'] = some this ∧
      (this.alternateScreen = true ↔ this.savedMainScreen.isSome) ∧
      ∀ after, this.feed exampleWidth [.csiDispatch [[1049]] [0x3f] false 'h', .print 'b',
        .escDispatch [] false 0x63, .csiDispatch [[1049]] [0x3f] false 'h',
        .csiDispatch [[1049]] [0x3f] false 'l'] = some after → after = this := by
  have hreached : (Terminal.new 3 1).feed exampleWidth [.print 'a'] = some _ := rfl
  obtain ⟨hiff, hreturns⟩ := alternateScreen_returns exampleWidth (by decide) hreached
  refine ⟨_, hreached, hiff, ?_⟩
  exact (hreturns rfl (.csiDispatch [[1049]] [0x3f] false 'h')
    [.print 'b', .escDispatch [] false 0x63, .csiDispatch [[1049]] [0x3f] false 'h']
    (.csiDispatch [[1049]] [0x3f] false 'l') (by decide) (by decide) (by decide)).2

end ManInTheBox.Emulator
