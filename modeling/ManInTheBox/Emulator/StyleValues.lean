import Mathlib.Tactic
import ManInTheBox.Emulator.Style

/-! # The values of CSI m

A value sets an attribute, begins a colour that is spelled out in the values after it, or
does nothing. Whatever is set, is set whatever it was: two styles that were told the same
have an attribute in common.
-/

namespace ManInTheBox.Emulator.Style

open Color

/-- The values that set something by themselves. -/
def attributes : List UInt16 :=
  [0, 1, 3, 22, 23, 30, 31, 32, 33, 34, 35, 36, 37, 39, 40, 41, 42, 43, 44, 45, 46, 47, 49, 90, 91,
    92, 93, 94, 95, 96, 97, 100, 101, 102, 103, 104, 105, 106, 107]

/-- What a 38 or a 48 takes for its colour. -/
def startsColour : List UInt16 → Bool
  | 5 :: _ :: _ => true
  | 2 :: _ :: _ :: _ :: _ => true
  | _ => false

/-- Read in a row, the values set nothing. -/
def idle : List UInt16 → Bool
  | [] => true
  | value :: values =>
    decide (value ∉ attributes) &&
      !(decide (value = 38 ∨ value = 48) && startsColour values) && idle values

variable {style style' : Style} {value : UInt16} {values : List UInt16}

theorem set_of_notMem (h : value ∉ attributes) : style.set value = style := by
  unfold set
  split <;> first | rfl | exact absurd (by decide) h

/-! ## The loop, value by value -/

theorem setAll_cons (h : value = 38 ∨ value = 48 → startsColour values = false) (style : Style) :
    style.setAll (value :: values) = (style.set value).setAll values := by
  rw [setAll]
  all_goals
    intros
    subst_vars
    simp [startsColour] at h

/-! ## Styles that were told the same -/

/-- Two styles have an attribute in common. -/
def Agree (style style' : Style) : Prop :=
  style.fgColor = style'.fgColor ∨ style.bgColor = style'.bgColor ∨ style.bold = style'.bold ∨
    style.italic = style'.italic

theorem agree_set (h : value ∈ attributes) : Agree (style.set value) (style'.set value) := by
  unfold set
  split
  all_goals first
    | exact .inl rfl
    | exact .inr (.inl rfl)
    | exact .inr (.inr (.inl rfl))
    | exact .inr (.inr (.inr rfl))
    | simp_all [attributes]

theorem Agree.set (h : Agree style style') (value : UInt16) :
    Agree (style.set value) (style'.set value) := by
  by_cases hvalue : value ∈ attributes
  · exact agree_set hvalue
  · rwa [set_of_notMem hvalue, set_of_notMem hvalue]

theorem Agree.setAll (h : Agree style style') (values : List UInt16) :
    Agree (style.setAll values) (style'.setAll values) := by
  fun_induction Style.setAll style values generalizing style' with
  | case1 style => exact h
  | case2 style index values ih =>
    rw [Style.setAll]
    exact ih (.inl rfl)
  | case3 style r g b values ih =>
    rw [Style.setAll]
    exact ih (.inl rfl)
  | case4 style index values ih =>
    rw [Style.setAll]
    exact ih (.inr (.inl rfl))
  | case5 style r g b values ih =>
    rw [Style.setAll]
    exact ih (.inr (.inl rfl))
  | case6 style value values h1 h2 h3 h4 ih =>
    rw [Style.setAll.eq_6 _ _ _ h1 h2 h3 h4]
    exact ih (h.set value)

/-- Values that set something set it for all styles alike. -/
theorem agree_setAll (h : idle values = false) (style style' : Style) :
    Agree (style.setAll values) (style'.setAll values) := by
  fun_induction Style.setAll style values generalizing style' with
  | case1 style => exact absurd h (by decide)
  | case2 style index values ih =>
    rw [Style.setAll]
    refine Agree.setAll ?_ values
    exact .inl rfl
  | case3 style r g b values ih =>
    rw [Style.setAll]
    refine Agree.setAll ?_ values
    exact .inl rfl
  | case4 style index values ih =>
    rw [Style.setAll]
    refine Agree.setAll ?_ values
    exact .inr (.inl rfl)
  | case5 style r g b values ih =>
    rw [Style.setAll]
    refine Agree.setAll ?_ values
    exact .inr (.inl rfl)
  | case6 style value values h1 h2 h3 h4 ih =>
    rw [Style.setAll.eq_6 _ _ _ h1 h2 h3 h4]
    by_cases hvalue : value ∈ attributes
    · exact (agree_set hvalue).setAll values
    · apply ih
      have hskip : value = 38 ∨ value = 48 → startsColour values = false := by
        rintro (rfl | rfl)
        · unfold startsColour
          split
          · exact (h1 _ _ rfl rfl).elim
          · exact (h2 _ _ _ _ rfl rfl).elim
          · rfl
        · unfold startsColour
          split
          · exact (h3 _ _ rfl rfl).elim
          · exact (h4 _ _ _ _ rfl rfl).elim
          · rfl
      by_cases hcolour : value = 38 ∨ value = 48
      · simpa [idle, hvalue, hskip hcolour] using h
      · simpa [idle, hvalue, hcolour] using h

theorem setAll_of_idle (h : idle values) (style : Style) : style.setAll values = style := by
  induction values with
  | nil => rfl
  | cons value values ih =>
    simp only [idle, Bool.and_eq_true, decide_eq_true_eq, Bool.not_eq_true'] at h
    rw [setAll_cons (fun hcolour => by simpa [hcolour] using h.1.2), set_of_notMem h.1.1, ih h.2]

/-- A style that has nothing in common with the default. -/
def marked : Style := default.setAll [1, 3, 30, 40]

/-- Values that change neither of two opposite styles change no style. -/
theorem idle_of_setAll (hdefault : default.setAll values = default)
    (hmarked : marked.setAll values = marked) : idle values := by
  by_contra hidle
  have hagree := agree_setAll (by simpa using hidle) default marked
  rw [hdefault, hmarked] at hagree
  revert hagree
  simp only [Agree]
  decide

end ManInTheBox.Emulator.Style
