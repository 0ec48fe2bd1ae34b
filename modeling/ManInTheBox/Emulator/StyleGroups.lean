import ManInTheBox.Emulator.StyleValues

/-! # The groups of CSI m

A parameter comes with its sub-parameters as a group. They belong to it: they say how it is
meant, or spell out the colour of a 38 or 48. The loop reads the values of all groups in a
row instead, and does not see where one group ends.
-/

namespace ManInTheBox.Emulator.Style

open Color

/-! ## Groups as they are meant -/

/-- The colour in the sub-parameters of a 38 or 48, with or without a colour space. -/
def groupColour : List UInt16 → Option Color
  | 5 :: index :: _ => some (color256 index)
  | [2, r, g, b] => some (colorTrue r g b)
  | 2 :: _ :: r :: g :: b :: _ => some (colorTrue r g b)
  | _ => none

/-- A group by itself: a 38 or 48 sets its own colour, and all others act by their head. -/
def setGroup (style : Style) : List UInt16 → Style
  | [] => style
  | 38 :: subs => (groupColour subs).elim style fun color => { style with fgColor := color }
  | 48 :: subs => (groupColour subs).elim style fun color => { style with bgColor := some color }
  | head :: _ => style.set head

/-- The groups from left to right; a 38 or 48 without sub-parameters takes its colour from groups
without sub-parameters. -/
def setGroups (style : Style) : Params → Style
  | [] => style
  | [38] :: [5] :: [index] :: groups => setGroups { style with fgColor := color256 index } groups
  | [38] :: [2] :: [r] :: [g] :: [b] :: groups =>
    setGroups { style with fgColor := colorTrue r g b } groups
  | [48] :: [5] :: [index] :: groups =>
    setGroups { style with bgColor := some (color256 index) } groups
  | [48] :: [2] :: [r] :: [g] :: [b] :: groups =>
    setGroups { style with bgColor := some (colorTrue r g b) } groups
  | group :: groups => setGroups (style.setGroup group) groups

def selectGroups (style : Style) (params : Params) : Style :=
  if params.flatten.isEmpty then default else style.setGroups params

/-! ## Groups that are not taken apart -/

section Whole

variable (Allowed : UInt16 → Prop)

/-- The sub-parameters of a 38 or 48 are a colour and allowed values, or allowed values that are not
taken for a colour together with what comes after. -/
def ColourWhole (after : List UInt16) : List UInt16 → Prop
  | 5 :: _ :: subs => ∀ value ∈ subs, Allowed value
  | [2, _, _, _] => True
  | 2 :: _ :: _ :: _ :: _ :: _ => False
  | subs => (∀ value ∈ subs, Allowed value) ∧ startsColour (subs ++ after) = false

def GroupWhole (after : List UInt16) : List UInt16 → Prop
  | [] => True
  | head :: subs =>
    if head = 38 ∨ head = 48 then ColourWhole Allowed after subs
    else ∀ value ∈ subs, Allowed value

/-- No group is taken apart, if the allowed values do nothing. -/
def Whole : Params → Prop
  | [] => True
  | [38] :: [5] :: [_] :: groups => Whole groups
  | [38] :: [2] :: [_] :: [_] :: [_] :: groups => Whole groups
  | [48] :: [5] :: [_] :: groups => Whole groups
  | [48] :: [2] :: [_] :: [_] :: [_] :: groups => Whole groups
  | group :: groups => GroupWhole Allowed groups.flatten group ∧ Whole groups

end Whole

/-- A value that does nothing wherever it stands. -/
def Inert (value : UInt16) : Prop := value ∉ attributes ∧ value ≠ 38 ∧ value ≠ 48

variable {Allowed : UInt16 → Prop} {style : Style}

/-! ## What the loop does with them -/

theorem setAll_inert {subs : List UInt16} (h : ∀ value ∈ subs, Inert value) (style : Style)
    (after : List UInt16) : style.setAll (subs ++ after) = style.setAll after := by
  induction subs with
  | nil => rfl
  | cons value subs ih =>
    rw [List.forall_mem_cons] at h
    obtain ⟨⟨hset, h38, h48⟩, hrest⟩ := h
    rw [List.cons_append, setAll_cons (by simp [h38, h48]), set_of_notMem hset, ih hrest]

/-- A 38 or 48 with sub-parameters, for either of the two colours. -/
theorem setAll_colour (hinert : ∀ value, Allowed value → Inert value) {head : UInt16}
    (hhead : head = 38 ∨ head = 48) {subs after : List UInt16}
    (h : ColourWhole Allowed after subs) (style : Style) :
    style.setAll (head :: (subs ++ after)) = (style.setGroup (head :: subs)).setAll after := by
  unfold ColourWhole at h
  split at h
  · rename_i index subs
    have hsubs := fun style : Style =>
      setAll_inert (fun value hvalue => hinert value (h value hvalue)) style after
    rcases hhead with rfl | rfl
    · rw [List.cons_append, List.cons_append, setAll, hsubs]
      rfl
    · rw [List.cons_append, List.cons_append, setAll, hsubs]
      rfl
  · rcases hhead with rfl | rfl
    · rfl
    · rfl
  · cases h
  · rename_i hindex hplain hspace
    obtain ⟨hallowed, hstarts⟩ := h
    have hnone : groupColour subs = none := by
      unfold groupColour
      split
      · exact (hindex _ _ rfl).elim
      · exact (hplain _ _ _ rfl).elim
      · exact (hspace _ _ _ _ _ rfl).elim
      · rfl
    have hsubs := setAll_inert (fun value hvalue => hinert value (hallowed value hvalue)) style after
    rw [setAll_cons fun _ => hstarts]
    rcases hhead with rfl | rfl
    · rw [set_of_notMem (by decide), hsubs, setGroup, hnone]
      rfl
    · rw [set_of_notMem (by decide), hsubs, setGroup, hnone]
      rfl

theorem setAll_group (hinert : ∀ value, Allowed value → Inert value) {group after : List UInt16}
    (h : GroupWhole Allowed after group) (style : Style) :
    style.setAll (group ++ after) = (style.setGroup group).setAll after := by
  cases group with
  | nil => rfl
  | cons head subs =>
    by_cases hcolour : head = 38 ∨ head = 48
    · rw [GroupWhole, if_pos hcolour] at h
      exact setAll_colour hinert hcolour h style
    · have hsubs : ∀ value ∈ subs, Inert value := by
        rw [GroupWhole, if_neg hcolour] at h
        exact fun value hvalue => hinert value (h value hvalue)
      have hgroup : style.setGroup (head :: subs) = style.set head := by
        rw [not_or] at hcolour
        rw [setGroup]
        · exact hcolour.1
        · exact hcolour.2
      rw [List.cons_append, setAll_cons (fun h => absurd h hcolour), setAll_inert hsubs, hgroup]

theorem setAll_flatten (hinert : ∀ value, Allowed value → Inert value) {params : Params}
    (h : Whole Allowed params) (style : Style) :
    style.setAll params.flatten = style.setGroups params := by
  fun_induction setGroups style params with
  | case1 style => rfl
  | case2 style index groups ih | case3 style r g b groups ih | case4 style index groups ih
  | case5 style r g b groups ih =>
    rw [Whole] at h
    exact ih h
  | case6 style group groups h1 h2 h3 h4 ih =>
    rw [Whole.eq_6 _ _ _ h1 h2 h3 h4] at h
    rw [List.flatten_cons, setAll_group hinert h.1, ih h.2]

theorem select_eq (hinert : ∀ value, Allowed value → Inert value) {params : Params}
    (h : Whole Allowed params) (style : Style) :
    style.select params = style.selectGroups params := by
  rw [select, selectGroups]
  split
  · rfl
  · exact setAll_flatten hinert h style

/-! ## A value that is not inert is misread -/

/-- An attribute after a colon. -/
theorem inert_of_underline {value : UInt16}
    (h : ∀ style : Style, style.select [[4, value]] = style.selectGroups [[4, value]]) :
    value ∉ attributes := by
  intro hvalue
  have hset : ∀ style : Style, style.set value = style := by
    intro style
    have hfour : style.set 4 = style := set_of_notMem (by decide)
    have hplain : (4 : UInt16) = 38 ∨ (4 : UInt16) = 48 → startsColour [value] = false :=
      fun h => absurd h (by decide)
    have hlast : value = 38 ∨ value = 48 → startsColour [] = false := fun _ => rfl
    calc style.set value = (style.set value).setAll [] := rfl
      _ = style.setAll [4, value] := by rw [setAll_cons hplain, hfour, setAll_cons hlast]
      _ = style := h style
  have hagree := @agree_set default marked value hvalue
  rw [hset, hset] at hagree
  simp only [Agree] at hagree
  revert hagree
  decide

end ManInTheBox.Emulator.Style

namespace ManInTheBox.Emulator

/-- Whatever sub-parameters are allowed besides the colours: the loop reads all lists of groups that
are whole as they are meant, exactly if each allowed value neither sets anything nor begins a
colour. -/
theorem select_groups_iff (Allowed : UInt16 → Prop) :
    (∀ params, Style.Whole Allowed params → ∀ style : Style,
      style.select params = style.selectGroups params) ↔
    ∀ value, Allowed value → Style.Inert value := by
  constructor
  · intro hall value hvalue
    have hunderline : Style.Whole Allowed [[4, value]] := by
      refine ⟨?_, trivial⟩
      simpa [Style.GroupWhole] using hvalue
    -- A 5 and a 0 after it are taken for the colour of a 38 or 48 in the sub-parameters.
    have hcolour : Style.Whole Allowed [[4, value], [5], [0]] := by
      simpa [Style.Whole, Style.GroupWhole] using hvalue
    refine ⟨Style.inert_of_underline (hall _ hunderline), ?_, ?_⟩
    · rintro rfl
      exact absurd (congrArg Style.fgColor (hall _ hcolour Style.default)) (by decide)
    · rintro rfl
      exact absurd (congrArg Style.bgColor (hall _ hcolour Style.default)) (by decide)
  · exact fun hinert params h style => Style.select_eq hinert h style

/-- CSI 4:3 m, a curly underline, switches italics on. -/
theorem not_select_groups :
    ¬ ∀ (params : Params) (style : Style), style.select params = style.selectGroups params := by
  intro hall
  have hcurly := congrArg Style.italic (hall [[4, 3]] Style.default)
  exact absurd hcurly (by decide)

end ManInTheBox.Emulator
