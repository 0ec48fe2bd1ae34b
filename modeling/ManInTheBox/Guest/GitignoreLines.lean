import ManInTheBox.Guest.Scope

/-! # The lines of `.gitignore` files

A line is blank, a comment, or a pattern with the marks around it. Every pattern comes
back as the rule that it stands for, so that the rules in scope in a directory are the
pattern lines of the files on the way to it, in their order.
-/

namespace ManInTheBox.Guest

open Library

/-- A pattern, which may be negated, anchored, or for directories only. It has no escapes,
and no end of it can be taken for a mark. -/
structure PatternLine where
  negated : Bool
  anchored : Bool
  directoryOnly : Bool
  body : Text
  nonempty : body ≠ []
  no_escape : '\\' ∉ body
  no_slash_first : anchored = false → body.head? ≠ some '/'
  no_mark_first : negated = false → anchored = false → body.head? ≠ some '!' ∧ body.head? ≠ some '#'
  no_mark_last : directoryOnly = false → body.getLast? ≠ some '/' ∧ body.getLast? ≠ some '\r'

namespace PatternLine

def text (line : PatternLine) : Text :=
  (if line.negated then ['!'] else []) ++ ((if line.anchored then ['/'] else []) ++
    (line.body ++ if line.directoryOnly then ['/'] else []))

/-- The pattern has a slash in it, not counting those that are marks. -/
def hasSlash (line : PatternLine) : Bool := '/' ∈ line.body

end PatternLine

inductive GitignoreLine
  | blank
  | comment (rest : Text)
  | pattern (line : PatternLine)

namespace GitignoreLine

def text : GitignoreLine → Text
  | .blank => []
  | .comment rest => '#' :: rest
  | .pattern line => line.text

def pattern? : GitignoreLine → Option PatternLine
  | .pattern line => some line
  | _ => none

end GitignoreLine

/-! ## Reading a line back -/

section Marks

variable (c : Char) (text : Text)

theorem stripStart_of_head?_ne (h : text.head? ≠ some c) : stripStart c text = (false, text) := by
  cases text with
  | nil => rfl
  | cons c' rest =>
    rw [stripStart, if_neg]
    rintro rfl
    exact h rfl

/-- A mark in front is stripped, whether it is there or not. -/
theorem stripStart_mark (marked : Bool) (h : marked = false → text.head? ≠ some c) :
    stripStart c ((if marked then [c] else []) ++ text) = (marked, text) := by
  cases marked with
  | true => simp [stripStart]
  | false => exact stripStart_of_head?_ne c text (h rfl)

theorem stripEnd_mark (marked : Bool) (h : marked = false → text.getLast? ≠ some c) :
    stripEnd c (text ++ if marked then [c] else []) = (marked, text) := by
  cases marked with
  | true => simp [stripEnd]
  | false => simp [stripEnd, h rfl]

end Marks

namespace PatternLine

variable (line : PatternLine)

theorem text_ne_nil : line.text ≠ [] := by
  unfold text
  simp [line.nonempty]

/-- What is left of the line behind the mark of negation. -/
def anchoredText : Text :=
  (if line.anchored then ['/'] else []) ++ (line.body ++ if line.directoryOnly then ['/'] else [])

theorem anchoredText_ne_nil : line.anchoredText ≠ [] := by
  unfold anchoredText
  simp [line.nonempty]

theorem head?_anchoredText :
    line.anchoredText.head? = if line.anchored then some '/' else line.body.head? := by
  unfold anchoredText
  cases line.anchored with
  | true => rfl
  | false =>
    obtain ⟨c, rest, hbody⟩ := List.exists_cons_of_ne_nil line.nonempty
    simp [hbody]

theorem head?_anchoredText_ne (h : line.negated = false) :
    line.anchoredText.head? ≠ some '!' ∧ line.anchoredText.head? ≠ some '#' := by
  rw [head?_anchoredText]
  cases hanchored : line.anchored with
  | true => simp
  | false => exact line.no_mark_first h hanchored

theorem text_eq : line.text = (if line.negated then ['!'] else []) ++ line.anchoredText := rfl

theorem head?_text_ne_hash : line.text.head? ≠ some '#' := by
  rw [text_eq]
  cases hnegated : line.negated with
  | true => simp
  | false => exact (line.head?_anchoredText_ne hnegated).2

theorem getLast?_text_ne : line.text.getLast? ≠ some '\r' := by
  have hbody : (line.body ++ if line.directoryOnly then ['/'] else []).getLast? ≠ some '\r' := by
    cases hdirectory : line.directoryOnly with
    | true => simp
    | false => simpa using (line.no_mark_last hdirectory).2
  have hne : (line.body ++ if line.directoryOnly then ['/'] else []) ≠ [] := by
    simp [line.nonempty]
  rw [text, ← List.append_assoc, List.getLast?_append_of_ne_nil _ hne]
  exact hbody

theorem rdropWhile_text : line.text.rdropWhile (· = '\r') = line.text := by
  apply List.rdropWhile_eq_self_iff.mpr
  intro hne
  rw [decide_eq_true_eq]
  intro hlast
  exact line.getLast?_text_ne (by rw [List.getLast?_eq_getLast_of_ne_nil hne, hlast])

theorem normalized_body : (line.body.map fun c => if c = '\\' then '/' else c) = line.body := by
  conv_rhs => rw [← List.map_id line.body]
  apply List.map_congr_left
  intro c hc
  rw [if_neg]
  · rfl
  · rintro rfl
    exact line.no_escape hc

end PatternLine

variable {Pattern : Type} [Glob Pattern]

/-- The rule of a pattern line in the file of a directory. -/
def PatternLine.rule (line : PatternLine) (baseDir : Text) (pattern : Pattern) :
    GitignoreRule Pattern :=
  { baseDir, pattern, negated := line.negated, directoryOnly := line.directoryOnly,
    anchored := line.anchored, hasSlash := line.hasSlash }

/-- A comment is still one without the carriage returns at its end. -/
theorem rdropWhile_comment (rest : Text) :
    ∃ rest', ('#' :: rest : Text).rdropWhile (· = '\r') = '#' :: rest' := by
  obtain ⟨dropped, hdropped⟩ := List.rdropWhile_prefix (· = '\r') ('#' :: rest)
  cases hkept : ('#' :: rest : Text).rdropWhile (· = '\r') with
  | nil =>
    have := List.rdropWhile_eq_nil_iff.mp hkept '#' (List.mem_cons_self ..)
    simp at this
  | cons c rest' =>
    rw [hkept, List.cons_append] at hdropped
    exact ⟨rest', by rw [(List.cons.inj hdropped).1]⟩

/-- A line is read as it was written. -/
theorem parseGitignoreLine_text (baseDir : Text) (line : GitignoreLine) :
    parseGitignoreLine baseDir line.text =
      match line.pattern? with
      | none => .ok none
      | some line =>
        match (Glob.new line.body : Except Text Pattern) with
        | .error error => .error (invalidGitignorePattern line.body baseDir error)
        | .ok pattern => .ok (some (line.rule baseDir pattern)) := by
  cases line with
  | blank => rfl
  | comment rest =>
    obtain ⟨rest', hrest⟩ := rdropWhile_comment rest
    change parseGitignoreLine baseDir ('#' :: rest) = .ok none
    simp [parseGitignoreLine, hrest]
  | pattern line =>
    have hnegated := stripStart_mark '!' line.anchoredText line.negated fun h =>
      (line.head?_anchoredText_ne h).1
    have hanchored := stripStart_mark '/' (line.body ++ if line.directoryOnly then ['/'] else [])
      line.anchored fun h => by
        rw [List.head?_append_of_ne_nil _ line.nonempty]
        exact line.no_slash_first h
    have hdirectory := stripEnd_mark '/' line.body line.directoryOnly fun h =>
      (line.no_mark_last h).1
    change parseGitignoreLine baseDir line.text = _
    unfold parseGitignoreLine
    rw [line.rdropWhile_text]
    simp only [line.text_ne_nil, line.head?_text_ne_hash, or_self, if_false]
    rw [line.text_eq, hnegated]
    simp only [line.anchoredText_ne_nil, if_false]
    unfold PatternLine.anchoredText
    rw [hanchored]
    simp only [line.nonempty, List.append_eq_nil_iff, false_and, if_false, hdirectory,
      line.normalized_body]
    rfl

/-! ## The lines in scope -/

/-- A pattern line, and the path of the directory whose file it is in. -/
structure ScopedLine where
  dir : List Name
  line : PatternLine

/-- The pattern lines in scope in a directory, from the root down, where the file of a
directory has the given lines. -/
def linesInScope (gitignore : List Name → List GitignoreLine) (path : List Name) :
    List ScopedLine :=
  path.inits.flatMap fun dir =>
    ((gitignore dir).filterMap GitignoreLine.pattern?).map (ScopedLine.mk dir)

/-- The text lines of the `.gitignore` file of a directory. -/
def Directory.gitignoreText (directory : Directory) : List Text :=
  match directory.openAt? gitignoreName with
  | some (.regularFile contents) => lines (fromUtf8Lossy contents)
  | _ => []

/-- The files of the tree have the given lines. -/
def Written (root : Directory) (gitignore : List Name → List GitignoreLine) : Prop :=
  ∀ path directory, root.node.at? path = some (Directory.node directory) →
    directory.gitignoreText = (gitignore path).map GitignoreLine.text

/-- The rule that is read from a pattern line. -/
def ReadAs (baseDir : Text) (line : PatternLine) (rule : GitignoreRule Pattern) : Prop :=
  ∃ pattern, Glob.new line.body = .ok pattern ∧ rule = line.rule baseDir pattern

/-- The rule that is read from a line in scope at a path. -/
def StandsFor (path : List Name) (source : ScopedLine) (rule : GitignoreRule Pattern) : Prop :=
  source.dir <+: path ∧ ReadAs (pathText source.dir) source.line rule

theorem parseGitignoreLines_text {baseDir : Text} {written : List GitignoreLine}
    {rules rules' : List (GitignoreRule Pattern)}
    (h : parseGitignoreLines baseDir (written.map GitignoreLine.text) rules = .ok rules') :
    ∃ new, rules' = rules ++ new ∧
      List.Forall₂ (ReadAs baseDir) (written.filterMap GitignoreLine.pattern?) new := by
  induction written generalizing rules with
  | nil => exact ⟨[], by rw [List.append_nil]; exact (Except.ok.inj h).symm, .nil⟩
  | cons line written ih =>
    rw [List.map_cons, parseGitignoreLines, parseGitignoreLine_text, bind_eq_ok] at h
    obtain ⟨rule, hrule, hrest⟩ := h
    obtain ⟨new, hnew, hread⟩ := ih hrest
    cases hpattern : line.pattern? with
    | none =>
      rw [hpattern] at hrule
      obtain rfl := Except.ok.inj hrule
      refine ⟨new, by simpa using hnew, ?_⟩
      rwa [List.filterMap_cons_none hpattern]
    | some patternLine =>
      rw [hpattern] at hrule
      cases hglob : (Glob.new patternLine.body : Except Text Pattern) with
      | error error =>
        simp only [hglob] at hrule
        cases hrule
      | ok pattern =>
        simp only [hglob] at hrule
        obtain rfl := Except.ok.inj hrule
        refine ⟨patternLine.rule baseDir pattern :: new, by simpa using hnew, ?_⟩
        rw [List.filterMap_cons_some hpattern]
        exact .cons ⟨pattern, hglob, rfl⟩ hread

theorem forall₂_flatMap {α β γ : Type*} {R : β → γ → Prop} {f : α → List β} {g : α → List γ}
    {l : List α}
    (h : ∀ a ∈ l, List.Forall₂ R (f a) (g a)) : List.Forall₂ R (l.flatMap f) (l.flatMap g) := by
  induction l with
  | nil => exact .nil
  | cons a l ih =>
    rw [List.forall_mem_cons] at h
    rw [List.flatMap_cons, List.flatMap_cons]
    exact List.rel_append h.1 (ih h.2)

variable [GuestFilesystem] {options : FindOptions} {root : Directory}
  {gitignore : List Name → List GitignoreLine}

/-- The rules of a directory are read from the lines of its file. -/
theorem rulesIn_written (hrespect : options.respectGitignore = true) {path : List Name}
    {directory : Directory} {rules : List (GitignoreRule Pattern)}
    (hwritten : directory.gitignoreText = (gitignore path).map GitignoreLine.text)
    (h : rulesIn options directory (pathText path) [] = .ok rules) :
    List.Forall₂ (ReadAs (pathText path)) ((gitignore path).filterMap GitignoreLine.pattern?)
      rules := by
  rw [rulesIn, if_pos hrespect] at h
  unfold loadGitignoreRules at h
  unfold Directory.gitignoreText at hwritten
  split at h
  case h_1 hopen =>
    rw [hopen] at hwritten
    rw [List.map_eq_nil_iff.mp hwritten.symm, ← Except.ok.inj h]
    exact .nil
  case h_2 contents hopen =>
    simp only [hopen] at hwritten
    rw [parseGitignoreRules, hwritten] at h
    obtain ⟨new, rfl, hread⟩ := parseGitignoreLines_text h
    exact hread
  case h_3 => cases h

/-- The rules in scope are read from the lines in scope, where the files on the way can be
read. -/
theorem rulesInScope_written (hrespect : options.respectGitignore = true)
    (hwritten : Written root gitignore) {path : List Name} {directory : Directory}
    (hdirectory : root.node.at? path = some directory.node)
    (hloads : ∀ above, above <+: path → ∀ directory : Directory,
      root.node.at? above = some directory.node → ∃ rules : List (GitignoreRule Pattern),
        rulesIn options directory (pathText above) [] = .ok rules) :
    List.Forall₂ (StandsFor path) (linesInScope gitignore path)
      (rulesInScope options root path : List (GitignoreRule Pattern)) := by
  apply forall₂_flatMap
  intro above habove
  rw [List.mem_inits] at habove
  obtain ⟨rest, rfl⟩ := habove
  rw [Node.at?_append] at hdirectory
  obtain ⟨node, hnode, hrest⟩ := Option.bind_eq_some_iff.mp hdirectory
  obtain ⟨aboveDirectory, rfl⟩ := Node.exists_directory_of_at? hrest
  obtain ⟨own, hown⟩ := hloads above ⟨rest, rfl⟩ aboveDirectory hnode
  rw [ownRules_eq hnode hown, List.forall₂_map_left_iff]
  apply (rulesIn_written hrespect (hwritten above aboveDirectory hnode) hown).imp
  intro line rule hread
  exact ⟨⟨rest, rfl⟩, hread⟩

end ManInTheBox.Guest
