import Mathlib.Tactic
import Mathlib.Data.List.Induction
import Mathlib.Data.List.Infix

/-! # Relative paths in the guest

The guest builds the path of an entry as text, name by name, and later takes the text
apart again. Names have no slash in them, so nothing is lost on the way.
-/

namespace ManInTheBox.Guest

abbrev Text := List Char

/-- The name of an entry of a directory. -/
@[ext] structure Name where
  text : Text
  nonempty : text ≠ []
  no_slash : '/' ∉ text
  deriving DecidableEq

/-! ## On the text -/

def joinRelativePath (base child : Text) : Text :=
  if base = [] then child else base ++ '/' :: child

def displayPath (path : Text) : Text := if path = [] then ['.'] else path

/-- `path.rsplit('/').next()`. -/
def basename (path : Text) : Text := (path.reverse.takeWhile (· ≠ '/')).reverse

/-- `path[..path.rfind('/').unwrap_or_default()]`. -/
def beforeLastSlash (path : Text) : Text := (path.reverse.dropWhile (· ≠ '/')).tail.reverse

/-- What stands before the slashes of a text, with what has been read of it. -/
def beforeSlashes (before : Text) : Text → List Text
  | [] => []
  | c :: rest =>
    if c = '/' then before :: beforeSlashes (before ++ [c]) rest
    else beforeSlashes (before ++ [c]) rest

def directoryPrefixes (path : Text) (isDir : Bool) : List Text :=
  let directoryPath := if isDir then path else beforeLastSlash path
  if directoryPath = [] then [] else beforeSlashes [] directoryPath ++ [directoryPath]

/-! ## On the names -/

/-- The text of a path, as it is built on the way down. -/
def pathText (path : List Name) : Text :=
  path.foldl (fun base name => joinRelativePath base name.text) []

@[simp] theorem pathText_nil : pathText [] = [] := rfl

theorem pathText_concat (path : List Name) (name : Name) :
    pathText (path ++ [name]) = joinRelativePath (pathText path) name.text := by
  rw [pathText, List.foldl_append]
  rfl

@[simp] theorem pathText_singleton (name : Name) : pathText [name] = name.text := rfl

@[simp] theorem joinRelativePath_eq_nil_iff (base child : Text) :
    joinRelativePath base child = [] ↔ base = [] ∧ child = [] := by
  unfold joinRelativePath
  split
  case isTrue h => simp [h]
  case isFalse h => simp [h]

@[simp] theorem pathText_eq_nil_iff (path : List Name) : pathText path = [] ↔ path = [] := by
  cases path using List.reverseRecOn with
  | nil => simp
  | append_singleton path name => simp [pathText_concat, name.nonempty]

theorem pathText_concat_of_ne_nil {path : List Name} (h : path ≠ []) (name : Name) :
    pathText (path ++ [name]) = pathText path ++ '/' :: name.text := by
  rw [pathText_concat, joinRelativePath, if_neg (mt (pathText_eq_nil_iff path).mp h)]

/-- Below a directory, the path goes on behind a slash. -/
theorem pathText_append {path rest : List Name} (h : path ≠ []) (hrest : rest ≠ []) :
    pathText (path ++ rest) = pathText path ++ '/' :: pathText rest := by
  induction rest using List.reverseRecOn with
  | nil => exact absurd rfl hrest
  | append_singleton rest name ih =>
    by_cases hnil : rest = []
    · subst hnil
      exact pathText_concat_of_ne_nil h name
    · rw [← List.append_assoc, pathText_concat_of_ne_nil (by simp [h]), ih hnil,
        pathText_concat_of_ne_nil hnil, List.append_assoc, List.cons_append]

theorem takeWhile_of_no_slash {text : Text} (h : '/' ∉ text) (before : Text) :
    (text.reverse ++ before).takeWhile (· ≠ '/') =
      text.reverse ++ before.takeWhile (· ≠ '/') := by
  apply List.takeWhile_append_of_pos
  intro c hc
  exact decide_eq_true fun hslash => h (hslash ▸ List.mem_reverse.mp hc)

theorem dropWhile_of_no_slash {text : Text} (h : '/' ∉ text) (before : Text) :
    (text.reverse ++ before).dropWhile (· ≠ '/') = before.dropWhile (· ≠ '/') := by
  apply List.dropWhile_append_of_pos
  intro c hc
  exact decide_eq_true fun hslash => h (hslash ▸ List.mem_reverse.mp hc)

/-- The last name of a path. -/
@[simp] theorem basename_pathText (path : List Name) (name : Name) :
    basename (pathText (path ++ [name])) = name.text := by
  by_cases h : path = []
  · subst h
    have := takeWhile_of_no_slash name.no_slash []
    rw [List.append_nil, List.takeWhile_nil, List.append_nil] at this
    rw [List.nil_append, pathText_singleton, basename, this, List.reverse_reverse]
  · rw [pathText_concat_of_ne_nil h, basename, List.reverse_append, List.reverse_cons,
      List.append_assoc, takeWhile_of_no_slash name.no_slash, List.singleton_append,
      List.takeWhile_cons_of_neg (by simp), List.append_nil, List.reverse_reverse]

theorem beforeLastSlash_of_no_slash {text : Text} (h : '/' ∉ text) : beforeLastSlash text = [] := by
  have := dropWhile_of_no_slash h []
  rw [List.append_nil, List.dropWhile_nil] at this
  rw [beforeLastSlash, this]
  rfl

theorem beforeLastSlash_append (before : Text) {after : Text} (h : '/' ∉ after) :
    beforeLastSlash (before ++ '/' :: after) = before := by
  rw [beforeLastSlash, List.reverse_append, List.reverse_cons, List.append_assoc,
    dropWhile_of_no_slash h, List.singleton_append, List.dropWhile_cons_of_neg (by simp),
    List.tail_cons, List.reverse_reverse]

/-- The path of the directory that an entry is in. -/
@[simp] theorem beforeLastSlash_pathText (path : List Name) (name : Name) :
    beforeLastSlash (pathText (path ++ [name])) = pathText path := by
  by_cases h : path = []
  · subst h
    exact beforeLastSlash_of_no_slash name.no_slash
  · rw [pathText_concat_of_ne_nil h]
    exact beforeLastSlash_append (pathText path) name.no_slash

/-- Different entries have different paths. -/
theorem pathText_injective : Function.Injective pathText := by
  intro path
  induction path using List.reverseRecOn with
  | nil =>
    intro path' h
    exact ((pathText_eq_nil_iff path').mp h.symm).symm
  | append_singleton path name ih =>
    intro path' h
    cases path' using List.reverseRecOn with
    | nil => exact (pathText_eq_nil_iff _).mp h
    | append_singleton path' name' =>
      have hname : name = name' := by
        have := congrArg basename h
        rw [basename_pathText, basename_pathText] at this
        exact Name.ext this
      have hpath : path = path' := by
        have := congrArg beforeLastSlash h
        rw [beforeLastSlash_pathText, beforeLastSlash_pathText] at this
        exact ih this
      rw [hname, hpath]

/-! ## The directories on the way -/

theorem inits_concat (path : List Name) (name : Name) :
    (path ++ [name]).inits = path.inits ++ [path ++ [name]] := by
  rw [List.inits_append]
  simp

theorem beforeSlashes_append (before text text' : Text) :
    beforeSlashes before (text ++ text') =
      beforeSlashes before text ++ beforeSlashes (before ++ text) text' := by
  induction text generalizing before with
  | nil => simp [beforeSlashes]
  | cons c text ih =>
    by_cases hc : c = '/'
    · simp [beforeSlashes, hc, ih]
    · simp [beforeSlashes, hc, ih]

theorem beforeSlashes_of_no_slash (before : Text) {text : Text} (h : '/' ∉ text) :
    beforeSlashes before text = [] := by
  induction text generalizing before with
  | nil => rfl
  | cons c text ih =>
    rw [List.mem_cons, not_or] at h
    rw [beforeSlashes, if_neg (Ne.symm h.1)]
    exact ih _ h.2

theorem beforeSlashes_concat {path : List Name} (h : path ≠ []) (name : Name) :
    beforeSlashes [] (pathText (path ++ [name])) =
      beforeSlashes [] (pathText path) ++ [pathText path] := by
  rw [pathText_concat_of_ne_nil h, beforeSlashes_append, beforeSlashes, if_pos rfl,
    beforeSlashes_of_no_slash _ name.no_slash, List.nil_append]

/-- What stands before the slashes of a path are the paths on the way to it. -/
theorem mem_beforeSlashes_iff (path : List Name) (text : Text) :
    text ∈ beforeSlashes [] (pathText path) ↔
      ∃ above below, above ≠ [] ∧ below ≠ [] ∧ path = above ++ below ∧ text = pathText above := by
  induction path using List.reverseRecOn with
  | nil =>
    simp only [pathText_nil, beforeSlashes, List.not_mem_nil, false_iff, not_exists, not_and]
    intro above below habove _ hpath
    exact absurd (List.append_eq_nil_iff.mp hpath.symm).1 habove
  | append_singleton path name ih =>
    by_cases h : path = []
    · subst h
      rw [List.nil_append, pathText_singleton, beforeSlashes_of_no_slash _ name.no_slash]
      simp only [List.not_mem_nil, false_iff, not_exists, not_and]
      intro above below habove hbelow hpath
      have hlength := congrArg List.length hpath
      rw [List.length_singleton, List.length_append] at hlength
      have := List.length_pos_of_ne_nil habove
      have := List.length_pos_of_ne_nil hbelow
      omega
    · rw [beforeSlashes_concat h, List.mem_append, List.mem_singleton, ih]
      constructor
      · rintro (⟨above, below, habove, hbelow, rfl, rfl⟩ | rfl)
        · exact ⟨above, below ++ [name], habove, by simp, by simp, rfl⟩
        · exact ⟨path, [name], h, by simp, rfl, rfl⟩
      · rintro ⟨above, below, habove, hbelow, hpath, rfl⟩
        cases below using List.reverseRecOn with
        | nil => exact absurd rfl hbelow
        | append_singleton below name' =>
          rw [← List.append_assoc] at hpath
          obtain ⟨rfl, -⟩ := List.append_inj' hpath rfl
          by_cases hbelow' : below = []
          · subst hbelow'
            exact Or.inr (by rw [List.append_nil])
          · exact Or.inl ⟨above, below, habove, hbelow', rfl, rfl⟩

/-- An entry that is no directory is left out, and what is above it stays. -/
theorem directoryPrefixes_pathText_false (path : List Name) :
    directoryPrefixes (pathText path) false = beforeSlashes [] (pathText path) := by
  cases path using List.reverseRecOn with
  | nil => rfl
  | append_singleton path name =>
    rw [directoryPrefixes, if_neg Bool.false_ne_true, beforeLastSlash_pathText]
    by_cases hnil : path = []
    · subst hnil
      rw [pathText_nil, if_pos rfl, List.nil_append, pathText_singleton,
        beforeSlashes_of_no_slash _ name.no_slash]
    · rw [if_neg (mt (pathText_eq_nil_iff path).mp hnil), beforeSlashes_concat hnil name]

/-- The directories on the way to an entry, and the entry itself if it is one. -/
theorem mem_directoryPrefixes_iff {path : List Name} (h : path ≠ []) (isDir : Bool) (text : Text) :
    text ∈ directoryPrefixes (pathText path) isDir ↔
      (isDir = true ∧ text = pathText path) ∨
        ∃ above below, above ≠ [] ∧ below ≠ [] ∧ path = above ++ below ∧ text = pathText above := by
  cases isDir with
  | true =>
    rw [directoryPrefixes, if_pos rfl, if_neg (mt (pathText_eq_nil_iff path).mp h), List.mem_append,
      List.mem_singleton, mem_beforeSlashes_iff, or_comm]
    simp
  | false =>
    rw [directoryPrefixes_pathText_false, mem_beforeSlashes_iff]
    simp

end ManInTheBox.Guest
