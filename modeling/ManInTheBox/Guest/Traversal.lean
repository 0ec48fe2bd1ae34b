import ManInTheBox.Guest.Scope

/-! # The walk and the recursion

The loop lists directories in another order than the recursion, over one vector of rules
that it cuts and extends. The lengths kept on the stack delimit the rules above each
pending directory whatever has been listed in between, so that both find the same.
-/

namespace ManInTheBox.Guest

open Library

variable {Pattern : Type} [Glob Pattern]

section Walk

variable [GuestFilesystem] (judge : List (GitignoreRule Pattern) → Text → Bool → Bool)
  (options : FindOptions) (includePattern : Pattern) (root : Directory)

/-! ## What the stack keeps -/

/-- Every pending directory is one of the tree, the part of the vector that is kept for it
holds the rules above it, and the parts get no longer down the stack. -/
structure Delimits (rules : List (GitignoreRule Pattern)) (stack : List PendingDirectory) : Prop where
  pending : ∀ directory ∈ stack, ∃ path, root.node.at? path = some directory.descriptor.node ∧
    directory.relativePath = pathText path ∧ directory.inheritedRulesLen ≤ rules.length ∧
      rules.take directory.inheritedRulesLen = rulesAbove options root path
  nested : stack.Pairwise fun directory below => below.inheritedRulesLen ≤ directory.inheritedRulesLen

variable {judge options includePattern root}

theorem Delimits.start :
    Delimits options root ([] : List (GitignoreRule Pattern))
      [{ descriptor := root, relativePath := [], inheritedRulesLen := 0 }] where
  pending := by
    intro directory hdirectory
    obtain rfl := List.mem_singleton.mp hdirectory
    exact ⟨[], Node.at?_nil _, rfl, Nat.le_refl 0, rfl⟩
  nested := List.pairwise_singleton _ _

/-- Cutting the vector for the topmost directory, and reading its rules, leaves the rules
of those below it where they are. -/
theorem Delimits.take_eq {rules rules' : List (GitignoreRule Pattern)}
    {directory : PendingDirectory} {stack : List PendingDirectory} (h : Delimits options root rules (directory :: stack))
    (hload : rulesIn options directory.descriptor directory.relativePath
      (rules.take directory.inheritedRulesLen) = .ok rules') {below : PendingDirectory}
    (hbelow : below ∈ stack) :
    rules'.take below.inheritedRulesLen = rules.take below.inheritedRulesLen := by
  have hlen := (List.pairwise_cons.mp h.nested).1 below hbelow
  obtain ⟨path, -, -, hle, -⟩ := h.pending directory (List.mem_cons_self ..)
  rw [rulesIn_append] at hload
  cases hown : rulesIn options directory.descriptor directory.relativePath
      ([] : List (GitignoreRule Pattern)) with
  | error error =>
    rw [hown] at hload
    cases hload
  | ok own =>
    rw [hown] at hload
    obtain rfl := Except.ok.inj hload
    rw [List.take_append_of_le_length, List.take_take, min_eq_left hlen]
    rw [List.length_take, min_eq_left hle]
    exact hlen

/-- The topmost directory comes to the rules in its scope, and the stack below it stays
delimited. -/
theorem Delimits.pop {rules rules' : List (GitignoreRule Pattern)} {directory : PendingDirectory}
    {stack : List PendingDirectory} (h : Delimits options root rules (directory :: stack))
    (hload : rulesIn options directory.descriptor directory.relativePath
      (rules.take directory.inheritedRulesLen) = .ok rules') :
    (∃ path, root.node.at? path = some directory.descriptor.node ∧
      directory.relativePath = pathText path ∧ rules' = rulesInScope options root path) ∧
      Delimits options root rules' stack := by
  constructor
  · obtain ⟨path, hat, hpath, -, htake⟩ := h.pending directory (List.mem_cons_self ..)
    rw [htake, hpath] at hload
    exact ⟨path, hat, hpath, rulesIn_eq_ok hat hload⟩
  · refine ⟨fun below hbelow => ?_, (List.pairwise_cons.mp h.nested).2⟩
    obtain ⟨path, hat, hpath, hle, htake⟩ := h.pending below (List.mem_cons_of_mem _ hbelow)
    have hsame := h.take_eq hload hbelow
    refine ⟨path, hat, hpath, ?_, hsame.trans htake⟩
    have hlength := congrArg List.length hsame
    rw [List.length_take, List.length_take, min_eq_left hle] at hlength
    exact min_eq_left_iff.mp hlength

/-- A directory among the entries is pushed with all rules in scope, which are the rules
above it. -/
theorem Delimits.visitEntry {path : List Name} {rules : List (GitignoreRule Pattern)}
    {directory : Directory} {entry : Name × Node} {state : List PendingDirectory × List PathMatch}
    (h : Delimits options root rules state.1) (hrules : rules = rulesInScope options root path)
    (hdirectory : root.node.at? path = some directory.node) (hentry : entry ∈ directory.entries) :
    Delimits options root rules
      (Guest.visitEntry judge options includePattern (pathText path) rules state entry).1 := by
  unfold Guest.visitEntry
  simp only
  split
  case isTrue hskips => exact h
  case isFalse hkept =>
    split
    case h_1 hopen => exact h
    case h_2 child hopen =>
      have hnode := Directory.at?_concat_of_mem hdirectory hentry
      rw [(Node.openDirectory?_eq_some_iff ..).mp hopen] at hnode
      constructor
      · rw [List.forall_mem_cons]
        refine ⟨⟨path ++ [entry.1], hnode, (pathText_concat ..).symm, Nat.le_refl _, ?_⟩, h.pending⟩
        rw [rulesAbove_concat, List.take_length, hrules]
      · rw [List.pairwise_cons]
        refine ⟨fun below hbelow => ?_, h.nested⟩
        obtain ⟨-, -, -, hle, -⟩ := h.pending below hbelow
        exact hle

theorem Delimits.foldl {path : List Name} {rules : List (GitignoreRule Pattern)}
    {directory : Directory} {entries : List (Name × Node)}
    {state : List PendingDirectory × List PathMatch} (h : Delimits options root rules state.1)
    (hrules : rules = rulesInScope options root path)
    (hdirectory : root.node.at? path = some directory.node)
    (hentries : ∀ entry ∈ entries, entry ∈ directory.entries) :
    Delimits options root rules
      (entries.foldl (Guest.visitEntry judge options includePattern (pathText path) rules)
        state).1 := by
  induction entries generalizing state with
  | nil => exact h
  | cons entry entries ih =>
    rw [List.forall_mem_cons] at hentries
    rw [List.foldl_cons]
    exact ih (h.visitEntry hrules hdirectory hentries.1) hentries.2

/-! ## What is found and what is left to find -/

variable (judge options includePattern)

/-- What there is to find in the pending directories, up to order. -/
def stillToFind (rules : List (GitignoreRule Pattern)) (stack : List PendingDirectory) :
    WithTop (Multiset PathMatch) :=
  (stack.map fun directory => outcome (directory.descriptor.findIn judge options includePattern
    directory.relativePath (rules.take directory.inheritedRulesLen))).sum

variable {judge options includePattern}

/-- An entry adds what there is to find at it and below, be it found now or pending. -/
theorem stillToFind_visitEntry (relativePath : Text) (rules : List (GitignoreRule Pattern))
    (state : List PendingDirectory × List PathMatch) (entry : Name × Node) :
    let next := visitEntry judge options includePattern relativePath rules state entry
    outcome (.ok next.2 : Except Text (List PathMatch)) +
        stillToFind judge options includePattern rules next.1 =
      outcome (.ok state.2 : Except Text (List PathMatch)) +
        stillToFind judge options includePattern rules state.1 +
          outcome (findAt judge options includePattern relativePath rules entry) := by
  intro next
  unfold next visitEntry findAt
  simp only
  split
  case isTrue hskips => rw [outcome_ok_nil, add_zero]
  case isFalse hkept =>
    split
    case h_1 hopen =>
      rw [Node.findIn_eq_of_not_directory hopen, ok_bind, List.append_nil, outcome_ok_append]
      exact add_right_comm ..
    case h_2 child hopen =>
      rw [(Node.openDirectory?_eq_some_iff ..).mp hopen, stillToFind, List.map_cons, List.sum_cons,
        List.take_length, outcome_ok_append]
      have hbelow := outcome_bind_append
        (.ok (listed options includePattern (joinRelativePath relativePath entry.1.text) child.node))
        (child.node.findIn judge options includePattern (joinRelativePath relativePath entry.1.text)
          rules)
      rw [ok_bind] at hbelow
      rw [hbelow, stillToFind, Directory.findIn]
      abel

theorem stillToFind_foldl (relativePath : Text) (rules : List (GitignoreRule Pattern))
    (entries : List (Name × Node)) (state : List PendingDirectory × List PathMatch) :
    let next := entries.foldl (visitEntry judge options includePattern relativePath rules) state
    outcome (.ok next.2 : Except Text (List PathMatch)) +
        stillToFind judge options includePattern rules next.1 =
      outcome (.ok state.2 : Except Text (List PathMatch)) +
        stillToFind judge options includePattern rules state.1 +
          outcome (collect (findAt judge options includePattern relativePath rules) entries) := by
  induction entries generalizing state with
  | nil => rw [collect, outcome_ok_nil, add_zero, List.foldl_nil]
  | cons entry entries ih =>
    simp only [List.foldl_cons] at ih ⊢
    rw [ih, stillToFind_visitEntry, outcome_collect, outcome_collect, List.map_cons, List.sum_cons,
      add_assoc]

/-- The loop finds what there is to find in the pending directories. -/
theorem outcome_findLoop {rules : List (GitignoreRule Pattern)} {stack : List PendingDirectory}
    (h : Delimits options root rules stack) (pathMatches : List PathMatch) :
    outcome (findLoop judge options includePattern stack rules pathMatches) =
      outcome (.ok pathMatches : Except Text (List PathMatch)) +
        stillToFind judge options includePattern rules stack := by
  fun_induction findLoop judge options includePattern stack rules pathMatches with
  | case1 rules pathMatches => simp [stillToFind]
  | case2 directory stack rules pathMatches error hload =>
    rw [stillToFind, List.map_cons, List.sum_cons, Directory.findIn_eq, hload]
    simp
  | case3 directory stack rules pathMatches rules' hload visited ih =>
    obtain ⟨⟨path, hat, hpath, hrules⟩, hstack⟩ := h.pop hload
    have hleft : stillToFind judge options includePattern rules stack =
        stillToFind judge options includePattern rules' stack := by
      unfold stillToFind
      congr 1
      apply List.map_congr_left
      intro below hbelow
      rw [h.take_eq hload hbelow]
    have hvisited : Delimits options root rules' visited.1 := by
      unfold visited
      rw [hpath]
      exact Delimits.foldl hstack hrules hat fun _ hentry => hentry
    rw [ih hvisited, stillToFind_foldl, ← hleft, stillToFind, stillToFind, List.map_cons,
      List.sum_cons, Directory.findIn_eq, hload, ok_bind, add_assoc, add_comm (List.sum _)]

/-! ## What is judged -/

variable (judge options root) in
/-- The two say the same of every entry, with the rules in scope in its directory. -/
def SameInScope (judge' : List (GitignoreRule Pattern) → Text → Bool → Bool) : Prop :=
  ∀ path directory, root.node.at? path = some (Directory.node directory) →
    ∀ entry ∈ directory.entries,
      judge' (rulesInScope options root path) (pathText (path ++ [entry.1])) entry.2.isDirectory =
        judge (rulesInScope options root path) (pathText (path ++ [entry.1])) entry.2.isDirectory

theorem visitEntry_congr {judge' : List (GitignoreRule Pattern) → Text → Bool → Bool}
    (hjudge : SameInScope judge options root judge') {path : List Name} {directory : Directory}
    {entry : Name × Node} (hdirectory : root.node.at? path = some directory.node)
    (hentry : entry ∈ directory.entries) (state : List PendingDirectory × List PathMatch) :
    visitEntry judge' options includePattern (pathText path) (rulesInScope options root path) state
        entry =
      visitEntry judge options includePattern (pathText path) (rulesInScope options root path) state
        entry := by
  have hsame : skipsEntry judge' options (rulesInScope options root path)
      (pathText (path ++ [entry.1])) entry.1 entry.2 = skipsEntry judge options (rulesInScope options root path)
        (pathText (path ++ [entry.1])) entry.1 entry.2 := by
    rw [skipsEntry, skipsEntry, hjudge path directory hdirectory entry hentry]
  simp only [visitEntry, ← pathText_concat, hsame]

/-- The walk judges every entry by the rules in scope in its directory, and by these only. -/
theorem findLoop_congr {judge' : List (GitignoreRule Pattern) → Text → Bool → Bool}
    (hjudge : SameInScope judge options root judge') {rules : List (GitignoreRule Pattern)}
    {stack : List PendingDirectory} (h : Delimits options root rules stack)
    (pathMatches : List PathMatch) :
    findLoop judge' options includePattern stack rules pathMatches =
      findLoop judge options includePattern stack rules pathMatches := by
  fun_induction findLoop judge options includePattern stack rules pathMatches with
  | case1 rules pathMatches => rw [findLoop]
  | case2 directory stack rules pathMatches error hload => rw [findLoop, hload]
  | case3 directory stack rules pathMatches rules' hload visited ih =>
    obtain ⟨⟨path, hat, hpath, hrules⟩, hstack⟩ := h.pop hload
    have hvisited : Delimits options root rules' visited.1 := by
      unfold visited
      rw [hpath]
      exact Delimits.foldl hstack hrules hat fun _ hentry => hentry
    have hsame : directory.descriptor.entries.foldl
        (visitEntry judge' options includePattern directory.relativePath rules') (stack, pathMatches) =
          visited := by
      apply List.foldl_ext
      intro state entry hentry
      rw [hpath, hrules]
      exact visitEntry_congr hjudge hat hentry state
    rw [findLoop, hload]
    simp only [hsame]
    exact ih hvisited

end Walk

section Root

variable [GuestFilesystem] {options : FindOptions} {preopens : List (Directory × Text)} {pattern : Text}
  {includePattern : Pattern} {root : Directory}

theorem findWith_eq_findLoop (judge : List (GitignoreRule Pattern) → Text → Bool → Bool)
    (hpattern : Glob.new pattern = .ok includePattern)
    (hroot : selectRootPreopen preopens = .ok root) :
    findWith judge preopens pattern options = findLoop judge options includePattern
      [{ descriptor := root, relativePath := [], inheritedRulesLen := 0 }] [] [] := by
  rw [findWith, hpattern]
  simp only [hroot]

/-- Up to order, the walk finds what the recursion does. -/
theorem outcome_findWith (judge : List (GitignoreRule Pattern) → Text → Bool → Bool)
    (hpattern : Glob.new pattern = .ok includePattern)
    (hroot : selectRootPreopen preopens = .ok root) :
    outcome (findWith judge preopens pattern options) =
      outcome (root.findIn judge options includePattern [] []) := by
  rw [findWith_eq_findLoop judge hpattern hroot, outcome_findLoop .start, outcome_ok_nil, zero_add,
    stillToFind, List.map_singleton, List.sum_singleton, List.take_zero]

/-- `find` walks the tree below its root exactly, whatever judges the paths. It succeeds if
the rules of every directory that is kept can be read. Then it finds every path once, and
those that are kept, of the kinds asked for and match the pattern; up to order this is what
the recursion finds. The rules that an entry is judged by are those in scope in its
directory: a judge that says the same with these leads to the same result. -/
theorem findWith_exact (judge : List (GitignoreRule Pattern) → Text → Bool → Bool)
    (hpattern : Glob.new pattern = .ok includePattern)
    (hroot : selectRootPreopen preopens = .ok root) :
    ((∃ found, findWith judge preopens pattern options = .ok found) ↔
      ∀ path directory, root.node.at? path = some (Directory.node directory) →
        Kept judge options root path → ∃ rules : List (GitignoreRule Pattern),
          rulesIn options directory (pathText path) [] = .ok rules) ∧
    (∀ found, findWith judge preopens pattern options = .ok found →
      (found.map PathMatch.path).Nodup ∧
      ∀ pathMatch, pathMatch ∈ found ↔ ∃ path node, path ≠ [] ∧ root.node.at? path = some node ∧
        Kept judge options root path ∧
        pathMatch = { path := pathText path, isDir := node.isDirectory } ∧
        matchesPathPattern includePattern (pathText path) = true ∧
        (node.descriptorType = .directory ∧ options.includeDirectories = true ∨
          node.descriptorType = .regularFile ∧ options.includeFiles = true)) ∧
    outcome (findWith judge preopens pattern options) =
      outcome (root.findIn judge options includePattern [] []) ∧
    ∀ judge', SameInScope judge options root judge' →
      findWith judge' preopens pattern options = findWith judge preopens pattern options := by
  have houtcome : outcome (findWith judge preopens pattern options) =
      outcome (root.findIn judge options includePattern [] []) := outcome_findWith judge hpattern hroot
  refine ⟨?_, ?_, houtcome, ?_⟩
  · rw [← outcome_ne_top_iff, houtcome, outcome_ne_top_iff]
    exact Directory.exists_findIn_root_iff
  · intro found hfound
    rw [hfound] at houtcome
    obtain ⟨found', hfound', hperm⟩ := (outcome_eq_outcome_ok_iff _ found).mp houtcome.symm
    constructor
    · exact (hperm.map PathMatch.path).nodup_iff.mp (Directory.nodup_paths_findIn_root hfound')
    · intro pathMatch
      rw [← hperm.mem_iff, Directory.mem_findIn_root_iff hfound']
      simp only [mem_listed_iff]
  · intro judge' hjudge
    rw [findWith_eq_findLoop judge hpattern hroot, findWith_eq_findLoop judge' hpattern hroot]
    exact findLoop_congr hjudge .start []

end Root

section Example

local instance wasiRefusals : GuestFilesystem where
  refuse
    | .directory => .reading "is-directory".toList
    | _ => .opening "loop".toList

def docsName : Name := ⟨"docs".toList, by decide, by decide⟩

def blogName : Name := ⟨"blog".toList, by decide, by decide⟩

def draftName : Name := ⟨"draft.md".toList, by decide, by decide⟩

def guideName : Name := ⟨"guide.md".toList, by decide, by decide⟩

/-- A directory that keeps its drafts to itself. -/
def docsDirectory : Directory where
  names := [gitignoreName, draftName, guideName]
  distinct := by decide
  child i := if i = 0 then .regularFile (encodeUtf8 "draft.md\n".toList) else .regularFile []

def blogDirectory : Directory := ⟨[draftName], List.nodup_singleton _, fun _ => .regularFile []⟩

def writings : Directory where
  names := [docsName, blogName]
  distinct := by decide
  child i := if i = 0 then docsDirectory.node else blogDirectory.node

def draftRule : GitignoreRule StarPattern :=
  ⟨"docs".toList, ⟨"draft.md".toList⟩, false, false, false, false⟩

theorem rulesIn_docsDirectory :
    rulesIn {} docsDirectory "docs".toList [] = .ok [draftRule] := by
  change parseGitignoreRules (fromUtf8Lossy (encodeUtf8 "draft.md\n".toList)) "docs".toList [] = _
  rw [fromUtf8Lossy_encodeUtf8]
  rfl

/-- The rule of one directory does not reach into the one beside it. -/
theorem findWith_exact_drafts :
    findWith (@pathIsIgnored StarPattern _) [(writings, ['.'])] "*.md".toList {} =
      .ok [⟨"blog/draft.md".toList, false⟩, ⟨"docs/guide.md".toList, false⟩] ∧
    Kept (@pathIsIgnored StarPattern _) {} writings [blogName, draftName] ∧
    ¬ Kept (@pathIsIgnored StarPattern _) {} writings [docsName, draftName] := by
  obtain ⟨-, hexact, -⟩ := @findWith_exact StarPattern _ _ {} [(writings, ['.'])] "*.md".toList
    ⟨"*.md".toList⟩ writings pathIsIgnored rfl rfl
  have hfound : findWith (@pathIsIgnored StarPattern _) [(writings, ['.'])] "*.md".toList {} =
      .ok [⟨"blog/draft.md".toList, false⟩, ⟨"docs/guide.md".toList, false⟩] := by
    rw [@findWith_eq_findLoop StarPattern _ _ {} [(writings, ['.'])] "*.md".toList
      ⟨"*.md".toList⟩ writings pathIsIgnored rfl rfl, findLoop]
    change findLoop _ _ _ [⟨blogDirectory, "blog".toList, 0⟩, ⟨docsDirectory, "docs".toList, 0⟩] []
      [] = _
    rw [findLoop]
    change findLoop _ _ _ [⟨docsDirectory, "docs".toList, 0⟩] []
      [⟨"blog/draft.md".toList, false⟩] = _
    rw [findLoop]
    simp only [List.take_nil, rulesIn_docsDirectory]
    change findLoop _ _ _ [] [draftRule]
      [⟨"blog/draft.md".toList, false⟩, ⟨"docs/guide.md".toList, false⟩] = _
    rw [findLoop]
  obtain ⟨-, hmem⟩ := hexact _ hfound
  refine ⟨hfound, ?_, fun hkept => ?_⟩
  · obtain ⟨path, node, -, -, hkept, hpath, -⟩ := (hmem ⟨"blog/draft.md".toList, false⟩).mp (by decide)
    have htext : pathText path = pathText [blogName, draftName] := (PathMatch.mk.inj hpath).1.symm
    rwa [pathText_injective htext] at hkept
  · have hlisted := (hmem ⟨"docs/draft.md".toList, false⟩).mpr ⟨[docsName, draftName],
      .regularFile [], by decide, rfl, hkept, rfl, by decide, .inr ⟨rfl, rfl⟩⟩
    exact absurd hlisted (by decide)

end Example

end ManInTheBox.Guest
