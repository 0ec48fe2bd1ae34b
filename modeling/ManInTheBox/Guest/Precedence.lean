import ManInTheBox.Guest.GitignoreLines
import ManInTheBox.Guest.Traversal

/-! # Precedence of `.gitignore` lines

The last line in scope that matches an entry should decide whether it is skipped. The
walk lets a line for directories only decide for all that is below a directory it
matches, so that such a line can overrule the lines that match the entry itself.
-/

namespace ManInTheBox.Guest

open Library

variable (Pattern : Type) [Glob Pattern]

/-! ## What lines say -/

/-- The name at the end of a path. -/
def lastName (path : List Name) : Text :=
  match path.getLast? with
  | some name => name.text
  | none => []

/-- The pattern of a line matches a path below its directory: the path if the line is
anchored or has a slash in it, and else the base name. -/
def PatternLine.matchesPath (line : PatternLine) (path : List Name) : Bool :=
  match (Glob.new line.body : Except Text Pattern) with
  | .error _ => false
  | .ok pattern =>
    globMatchesPattern pattern
      (if line.anchored || line.hasSlash then pathText path else lastName path)

namespace ScopedLine

/-- The line matches the entry at a path. -/
def matchesEntry (source : ScopedLine) (path : List Name) (isDir : Bool) : Bool :=
  (!source.line.directoryOnly || isDir) &&
    source.line.matchesPath Pattern (path.drop source.dir.length)

/-- The line is for directories only, and matches one on the way to a path. -/
def matchesAncestor (source : ScopedLine) (path : List Name) : Bool :=
  source.line.directoryOnly &&
    (List.range (path.length - source.dir.length)).any fun k =>
      0 < k && source.line.matchesPath Pattern ((path.drop source.dir.length).take k)

end ScopedLine

/-- The last of some lines that matches an entry is not negated. -/
def lastMatchSkips (sources : List ScopedLine) (path : List Name) (isDir : Bool) : Bool :=
  match (sources.filter fun source => source.matchesEntry Pattern path isDir).getLast? with
  | none => false
  | some source => !source.line.negated

/-- The entry at a path should be skipped. -/
def ShouldSkip (gitignore : List Name → List GitignoreLine) (path : List Name) (isDir : Bool) :
    Prop :=
  lastMatchSkips Pattern (linesInScope gitignore path.dropLast) path isDir = true

instance (gitignore : List Name → List GitignoreLine) (path : List Name) (isDir : Bool) :
    Decidable (ShouldSkip Pattern gitignore path isDir) :=
  inferInstanceAs (Decidable (lastMatchSkips _ _ _ _ = true))

/-- The last line in scope that matches an entry or a directory on the way matches only the
latter, and is at odds with what the lines before it say of the entry. -/
def Overruled (gitignore : List Name → List GitignoreLine) (path : List Name) (isDir : Bool) : Prop :=
  ∃ before source after, linesInScope gitignore path.dropLast = before ++ source :: after ∧
    source.matchesAncestor Pattern path = true ∧ source.matchesEntry Pattern path isDir = false ∧
    (∀ later ∈ after, later.matchesEntry Pattern path isDir = false ∧
      later.matchesAncestor Pattern path = false) ∧
    source.line.negated = lastMatchSkips Pattern before path isDir

variable {Pattern}

theorem lastMatchSkips_eq (sources : List ScopedLine) (path : List Name) (isDir : Bool) :
    lastMatchSkips Pattern sources path isDir =
      lastVerdict (fun source => source.matchesEntry Pattern path isDir)
        (fun source => !source.line.negated) false sources := by
  rw [lastVerdict_eq_getLast?, lastMatchSkips]
  cases (sources.filter fun source => source.matchesEntry Pattern path isDir).getLast? with
  | none => rfl
  | some source => rfl

/-! ## What the rules do -/

theorem basename_pathText_of_ne_nil {path : List Name} (h : path ≠ []) :
    basename (pathText path) = lastName path := by
  cases path using List.reverseRecOn with
  | nil => exact absurd rfl h
  | append_singleton path name =>
    rw [basename_pathText, lastName, List.getLast?_concat]

/-- The glob of a rule, on the text that it looks at. -/
theorem globMatches_of_read {baseDir : Text} {line : PatternLine} {rule : GitignoreRule Pattern}
    (h : ReadAs baseDir line rule) {path : List Name} (hne : path ≠ []) :
    (if rule.anchored || rule.hasSlash then globMatchesPattern rule.pattern (pathText path)
      else globMatchesPattern rule.pattern (basename (pathText path))) =
        line.matchesPath Pattern path := by
  obtain ⟨pattern, hpattern, rfl⟩ := h
  unfold PatternLine.matchesPath
  simp only [hpattern, basename_pathText_of_ne_nil hne, PatternLine.rule]
  split
  case isTrue hslash => rfl
  case isFalse hslash => rfl

/-- Behind its directory, a rule sees the rest of a path. -/
theorem pathFromBase_of_read {dir rest : List Name} {line : PatternLine}
    {rule : GitignoreRule Pattern} (h : ReadAs (pathText dir) line rule) (hrest : rest ≠ []) :
    rule.pathFromBase (pathText (dir ++ rest)) = some (pathText rest) := by
  obtain ⟨pattern, -, rfl⟩ := h
  rw [GitignoreRule.pathFromBase]
  change (if pathText dir = [] then _ else _) = _
  by_cases hdir : dir = []
  · subst hdir
    rfl
  · rw [if_neg (mt (pathText_eq_nil_iff dir).mp hdir), List.isPrefixOf?_eq_some_iff_append_eq]
    change (pathText dir ++ ['/']) ++ _ = _
    rw [pathText_append hdir hrest, List.append_assoc, List.singleton_append]

theorem lastName_append (dir : List Name) {rest : List Name} (hrest : rest ≠ []) :
    lastName (dir ++ rest) = lastName rest := by
  rw [lastName, lastName, List.getLast?_append_of_ne_nil _ hrest]

/-- The directories on the way are the proper beginnings of the rest of the path. -/
theorem matchesAncestor_eq_true_iff (dir rest : List Name) (line : PatternLine) :
    ({ dir, line } : ScopedLine).matchesAncestor Pattern (dir ++ rest) = true ↔
      line.directoryOnly = true ∧ ∃ above below, above ≠ [] ∧ below ≠ [] ∧ rest = above ++ below ∧
        line.matchesPath Pattern above = true := by
  simp only [ScopedLine.matchesAncestor, List.length_append, Nat.add_sub_cancel_left, List.drop_left,
    Bool.and_eq_true, List.any_eq_true, List.mem_range, decide_eq_true_eq]
  apply and_congr_right
  intro _
  constructor
  · rintro ⟨k, hk, hpos, hmatches⟩
    refine ⟨rest.take k, rest.drop k, ?_, ?_, (List.take_append_drop k rest).symm, hmatches⟩
    · exact List.ne_nil_of_length_pos (by rw [List.length_take]; omega)
    · exact List.ne_nil_of_length_pos (by rw [List.length_drop]; omega)
  · rintro ⟨above, below, habove, hbelow, rfl, hmatches⟩
    have := List.length_pos_of_ne_nil habove
    have := List.length_pos_of_ne_nil hbelow
    exact ⟨above.length, by rw [List.length_append]; omega, by omega, by rwa [List.take_left]⟩

/-- A rule has a say on an entry where its line matches the entry or a directory on the way. -/
theorem applies_of_read {dir rest : List Name} {line : PatternLine} {rule : GitignoreRule Pattern}
    (h : ReadAs (pathText dir) line rule) (hrest : rest ≠ []) (isDir : Bool) :
    rule.applies (pathText (dir ++ rest)) isDir =
      (({ dir, line } : ScopedLine).matchesEntry Pattern (dir ++ rest) isDir ||
        ({ dir, line } : ScopedLine).matchesAncestor Pattern (dir ++ rest)) := by
  have hdirectoryOnly : rule.directoryOnly = line.directoryOnly := by
    obtain ⟨pattern, -, rfl⟩ := h
    rfl
  have hname : basename (pathText (dir ++ rest)) = basename (pathText rest) := by
    rw [basename_pathText_of_ne_nil (by simp [hrest]), basename_pathText_of_ne_nil hrest,
      lastName_append dir hrest]
  rw [GitignoreRule.applies, pathFromBase_of_read h hrest]
  simp only [pathText_eq_nil_iff, hrest, if_false]
  rw [GitignoreRule.matchesBelow, hdirectoryOnly, hname, globMatches_of_read h hrest]
  apply Bool.eq_iff_iff.mpr
  apply Iff.trans _ (iff_of_eq (Bool.or_eq_true _ _)).symm
  rw [matchesAncestor_eq_true_iff]
  cases hline : line.directoryOnly with
  | false => simp [ScopedLine.matchesEntry, hline]
  | true =>
    simp only [if_true, List.any_eq_true, mem_directoryPrefixes_iff hrest, ScopedLine.matchesEntry,
      hline, Bool.not_true, Bool.false_or, List.drop_left, Bool.and_eq_true, true_and]
    constructor
    · rintro ⟨text, ⟨hdir, rfl⟩ | ⟨above, below, habove, hbelow, hsplit, rfl⟩, hmatches⟩
      · rw [globMatches_of_read h hrest] at hmatches
        exact Or.inl ⟨hdir, hmatches⟩
      · rw [globMatches_of_read h habove] at hmatches
        exact Or.inr ⟨above, below, habove, hbelow, hsplit, hmatches⟩
    · rintro (⟨hdir, hmatches⟩ | ⟨above, below, habove, hbelow, hsplit, hmatches⟩)
      · refine ⟨pathText rest, Or.inl ⟨hdir, rfl⟩, ?_⟩
        rwa [globMatches_of_read h hrest]
      · refine ⟨pathText above, Or.inr ⟨above, below, habove, hbelow, hsplit, rfl⟩, ?_⟩
        rwa [globMatches_of_read h habove]

/-- With rules read from lines, the walk goes by the last line that matches an entry or a
directory on the way. -/
theorem pathIsIgnored_of_stand {above : List Name} {name : Name} {sources : List ScopedLine}
    {rules : List (GitignoreRule Pattern)} (h : List.Forall₂ (StandsFor above) sources rules)
    (isDir : Bool) :
    pathIsIgnored rules (pathText (above ++ [name])) isDir =
      lastVerdict
        (fun source => source.matchesEntry Pattern (above ++ [name]) isDir ||
          source.matchesAncestor Pattern (above ++ [name]))
        (fun source => !source.line.negated) false sources := by
  rw [pathIsIgnored_eq]
  symm
  apply lastVerdict_of_forall₂ _ h
  rintro ⟨dir, line⟩ rule ⟨⟨rest, rfl⟩, hread⟩
  constructor
  · rw [List.append_assoc, applies_of_read hread (by simp)]
  · obtain ⟨pattern, -, rfl⟩ := hread
    rfl

/-- The verdict is that of the last line to match the entry itself, unless it is overruled. -/
theorem pathIsIgnored_iff_shouldSkip {gitignore : List Name → List GitignoreLine}
    {above : List Name} {name : Name} {rules : List (GitignoreRule Pattern)}
    (h : List.Forall₂ (StandsFor above) (linesInScope gitignore above) rules) (isDir : Bool) :
    (pathIsIgnored rules (pathText (above ++ [name])) isDir = true ↔
        ShouldSkip Pattern gitignore (above ++ [name]) isDir) ↔
      ¬ Overruled Pattern gitignore (above ++ [name]) isDir := by
  rw [pathIsIgnored_of_stand h, ShouldSkip, lastMatchSkips_eq, List.dropLast_concat,
    ← Bool.eq_iff_iff, lastVerdict_wide_eq_iff fun source hmatches => by rw [hmatches, Bool.true_or], Overruled,
    List.dropLast_concat]
  have hodds : ∀ negated verdict : Bool, (!negated) ≠ verdict ↔ negated = verdict := by decide
  apply not_congr
  apply exists_congr
  intro before
  apply exists_congr
  intro source
  apply exists_congr
  intro after
  simp only [Bool.or_eq_true, Bool.or_eq_false_iff, hodds, lastMatchSkips_eq]
  constructor
  · rintro ⟨hsources, hentry | hancestor, hnot, hafter, hverdict⟩
    · exact absurd hentry (by rw [hnot]; exact Bool.false_ne_true)
    · exact ⟨hsources, hancestor, hnot, hafter, hverdict⟩
  · rintro ⟨hsources, hancestor, hnot, hafter, hverdict⟩
    exact ⟨hsources, Or.inr hancestor, hnot, hafter, hverdict⟩

/-! ## What is skipped -/

section Skipping

variable [GuestFilesystem] {options : FindOptions} {root : Directory}

variable (Pattern options root) in
/-- The walk comes to list the directory at a path: nothing on the way is passed over, and
the files on the way can be read. -/
structure Reached (path : List Name) : Prop where
  kept : Kept (@pathIsIgnored Pattern _) options root path
  loads : ∀ above, above <+: path → ∀ directory : Directory,
    root.node.at? above = some directory.node → ∃ rules : List (GitignoreRule Pattern), rulesIn options directory (pathText above) [] = .ok rules

theorem skipped_iff_pathIsIgnored (hrespect : options.respectGitignore = true) {above : List Name}
    {name : Name} {node : Node} (hnode : root.node.at? (above ++ [name]) = some node)
    (hgit : ¬ IsGitDirectory root (above ++ [name])) :
    Skipped (@pathIsIgnored Pattern _) options root (above ++ [name]) ↔
      pathIsIgnored (rulesInScope options root above : List (GitignoreRule Pattern))
        (pathText (above ++ [name])) node.isDirectory = true := by
  rw [skipped_iff (by simp), Ignored, List.dropLast_concat]
  constructor
  · rintro ⟨-, ⟨node', hnode', hignored⟩ | hgit'⟩
    · obtain rfl := Option.some.inj (hnode.symm.trans hnode')
      exact hignored
    · exact absurd hgit' hgit
  · intro hignored
    exact ⟨hrespect, Or.inl ⟨node, hnode, hignored⟩⟩

/-- An entry that the walk reaches, and that is no directory of git, is skipped as the last
line in scope that matches it says, unless that line is overruled by a later one for
directories only that matches a directory on the way. Of the entries asked for, `find`
returns those that are not skipped. -/
theorem find_precedence_iff {preopens : List (Directory × Text)} {pattern : Text}
    {includePattern : Pattern} (hpattern : Glob.new pattern = .ok includePattern)
    (hroot : selectRootPreopen preopens = .ok root) (hrespect : options.respectGitignore = true)
    {gitignore : List Name → List GitignoreLine} (hwritten : Written root gitignore)
    {above : List Name} (hreached : Reached Pattern options root above) {name : Name} {node : Node}
    (hnode : root.node.at? (above ++ [name]) = some node)
    (hgit : ¬ IsGitDirectory root (above ++ [name])) :
    ((Skipped (@pathIsIgnored Pattern _) options root (above ++ [name]) ↔
        ShouldSkip Pattern gitignore (above ++ [name]) node.isDirectory) ↔
      ¬ Overruled Pattern gitignore (above ++ [name]) node.isDirectory) ∧
    ∀ found, find Pattern preopens pattern options = .ok found →
      ∀ pathMatch ∈ listed options includePattern (pathText (above ++ [name])) node,
        (pathMatch ∈ found ↔ ¬ Skipped (@pathIsIgnored Pattern _) options root (above ++ [name])) := by
  constructor
  · have hpath := hnode
    rw [Node.at?_append] at hpath
    obtain ⟨parent, hparent, hchild⟩ := Option.bind_eq_some_iff.mp hpath
    obtain ⟨directory, rfl⟩ := Node.exists_directory_of_at?_ne_nil (List.cons_ne_nil name []) hchild
    rw [skipped_iff_pathIsIgnored hrespect hnode hgit]
    exact pathIsIgnored_iff_shouldSkip
      (rulesInScope_written hrespect hwritten hparent hreached.loads) node.isDirectory
  · intro found hfound pathMatch hlisted
    have houtcome : outcome (find Pattern preopens pattern options) =
        outcome (root.findIn pathIsIgnored options includePattern [] []) :=
      outcome_findWith pathIsIgnored hpattern hroot
    rw [hfound] at houtcome
    obtain ⟨found', hfound', hperm⟩ := (outcome_eq_outcome_ok_iff _ found).mp houtcome.symm
    rw [← hperm.mem_iff, Directory.mem_findIn_root_iff hfound']
    constructor
    · rintro ⟨path, node', -, hnode', hkept, hlisted'⟩
      have hsame := congrArg PathMatch.path
        (((mem_listed_iff ..).mp hlisted).1.symm.trans ((mem_listed_iff ..).mp hlisted').1)
      obtain rfl := pathText_injective hsame
      exact ((kept_concat_iff above name).mp hkept).2
    · intro hnot
      exact ⟨above ++ [name], node, by simp, hnode,
        (kept_concat_iff above name).mpr ⟨hreached.kept, hnot⟩, hlisted⟩

end Skipping

/-! ## A tree in which a line is overruled -/

section Example

attribute [local instance] wasiRefusals

def srcName : Name := ⟨"src".toList, by decide, by decide⟩

def notesName : Name := ⟨"notes.txt".toList, by decide, by decide⟩

/-- A pattern line with the marks of `!*/`, and those of `*` and `!*.rs`. -/
def starLine (negated directoryOnly : Bool) (body : Text) (nonempty : body ≠ [])
    (plain : body.head? = some '*' ∧ '\\' ∉ body ∧ body.getLast? ≠ some '/' ∧
      body.getLast? ≠ some '\r') : PatternLine where
  negated := negated
  anchored := false
  directoryOnly := directoryOnly
  body := body
  nonempty := nonempty
  no_escape := plain.2.1
  no_slash_first _ := by rw [plain.1]; decide
  no_mark_first _ _ := by rw [plain.1]; decide
  no_mark_last _ := plain.2.2

/-- Everything is ignored but directories and Rust files. -/
def rustOnly : List GitignoreLine :=
  [.pattern (starLine false false "*".toList (by decide) (by decide)),
    .pattern (starLine true true "*".toList (by decide) (by decide)),
    .pattern (starLine true false "*.rs".toList (by decide) (by decide))]

def srcDirectory : Directory := ⟨[notesName], List.nodup_singleton _, fun _ => .regularFile []⟩

/-- A project with a text file among its sources. -/
def rustProject : Directory where
  names := [gitignoreName, srcName]
  distinct := by decide
  child i := if i = 0 then .regularFile (encodeUtf8 "*\n!*/\n!*.rs\n".toList) else srcDirectory.node

def rustProjectLines (path : List Name) : List GitignoreLine := if path = [] then rustOnly else []

theorem rustProject_gitignoreText :
    rustProject.gitignoreText = rustOnly.map GitignoreLine.text := by
  change lines (fromUtf8Lossy (encodeUtf8 "*\n!*/\n!*.rs\n".toList)) = _
  rw [fromUtf8Lossy_encodeUtf8]
  decide

theorem written_rustProject : Written rustProject rustProjectLines := by
  intro path directory h
  cases path with
  | nil =>
    obtain rfl := Directory.eq_of_at?_nil h
    exact rustProject_gitignoreText
  | cons name path =>
    obtain ⟨below, hentry, hbelow⟩ := (Directory.at?_cons_eq_some_iff ..).mp h
    rcases List.mem_pair.mp hentry with hfile | hsrc
    · obtain ⟨-, rfl⟩ := Prod.mk.inj hfile
      obtain ⟨above, habove⟩ := Node.exists_directory_of_at? hbelow
      cases habove
    · obtain ⟨-, rfl⟩ := Prod.mk.inj hsrc
      cases path with
      | nil =>
        obtain rfl := Directory.eq_of_at?_nil hbelow
        rfl
      | cons name' path =>
        obtain ⟨below', hentry', hbelow'⟩ :=
          (Directory.at?_cons_eq_some_iff srcDirectory ..).mp hbelow
        obtain ⟨-, rfl⟩ := Prod.mk.inj (List.mem_singleton.mp hentry')
        obtain ⟨above, habove⟩ := Node.exists_directory_of_at? hbelow'
        cases habove

/-- The rules that the lines stand for. -/
def rustOnlyRules : List (GitignoreRule StarPattern) :=
  [⟨[], ⟨"*".toList⟩, false, false, false, false⟩, ⟨[], ⟨"*".toList⟩, true, true, false, false⟩,
    ⟨[], ⟨"*.rs".toList⟩, true, false, false, false⟩]

theorem rulesIn_rustProject : rulesIn {} rustProject [] [] = .ok rustOnlyRules := by
  change parseGitignoreRules (fromUtf8Lossy (encodeUtf8 "*\n!*/\n!*.rs\n".toList)) [] [] = _
  rw [fromUtf8Lossy_encodeUtf8]
  rfl

theorem reached_rustProject : Reached StarPattern {} rustProject [] where
  kept := by
    intro _ above hne habove
    exact absurd (List.prefix_nil.mp habove) hne
  loads := by
    intro above habove directory h
    obtain rfl := List.prefix_nil.mp habove
    obtain rfl := Directory.eq_of_at?_nil h
    exact ⟨rustOnlyRules, rulesIn_rustProject⟩

/-- Nothing is on the way to an entry of the root. -/
theorem find_precedence_iff_src :
    Skipped (@pathIsIgnored StarPattern _) {} rustProject [srcName] ↔
      ShouldSkip StarPattern rustProjectLines [srcName] true := by
  have hgit : ¬ IsGitDirectory rustProject ([] ++ [srcName]) := by
    rintro ⟨hname, -⟩
    revert hname
    decide
  have hnot : ¬ Overruled StarPattern rustProjectLines ([] ++ [srcName]) true := by
    rintro ⟨before, source, after, -, hancestor, -⟩
    simp only [ScopedLine.matchesAncestor, List.nil_append, List.length_singleton, Bool.and_eq_true,
      List.any_eq_true, List.mem_range, decide_eq_true_eq] at hancestor
    obtain ⟨-, k, hk, hpos, -⟩ := hancestor
    omega
  have hnode : rustProject.node.at? ([] ++ [srcName]) = some srcDirectory.node := rfl
  exact (@find_precedence_iff StarPattern _ _ {} rustProject [(rustProject, ['.'])] "*".toList
    ⟨"*".toList⟩ rfl rfl rfl rustProjectLines written_rustProject [] reached_rustProject srcName
    srcDirectory.node hnode hgit).1.mpr hnot

/-- The text file is returned, although the last line that matches it is `*`. -/
theorem not_find_precedence :
    Written rustProject rustProjectLines ∧
      find StarPattern [(rustProject, ['.'])] "*".toList {} =
        .ok [{ path := "src/notes.txt".toList, isDir := false }] ∧
      ShouldSkip StarPattern rustProjectLines [srcName, notesName] false := by
  refine ⟨written_rustProject, ?_, ?_⟩
  · rw [find, @findWith_eq_findLoop StarPattern _ _ {} [(rustProject, ['.'])] "*".toList ⟨"*".toList⟩
      rustProject pathIsIgnored rfl rfl, findLoop]
    simp only [List.take_nil, rulesIn_rustProject]
    change findLoop _ _ _ [⟨srcDirectory, "src".toList, 3⟩] rustOnlyRules [] = _
    rw [findLoop]
    change findLoop _ _ _ [] rustOnlyRules [⟨"src/notes.txt".toList, false⟩] = _
    rw [findLoop]
  · decide

end Example

end ManInTheBox.Guest
