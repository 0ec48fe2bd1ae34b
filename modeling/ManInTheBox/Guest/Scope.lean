import ManInTheBox.Guest.Find

/-! # What is in scope, and what there is to find

The rules in scope in a directory are those of the directories on the way to it and its
own, from the root down. An entry is found where neither it nor a directory on its path
is passed over; the recursive definition finds exactly these entries.
-/

namespace ManInTheBox.Guest

open Library

variable {Pattern : Type} [Glob Pattern] [GuestFilesystem]

/-! ## The rules in scope -/

section Scope

variable (options : FindOptions) (root : Directory)

/-- The rules that the directory at a path has of its own. -/
def ownRules (path : List Name) : List (GitignoreRule Pattern) :=
  match (root.node.at? path).bind Node.openDirectory? with
  | none => []
  | some directory =>
    match rulesIn options directory (pathText path) [] with
    | .error _ => []
    | .ok rules => rules

/-- The rules of the directories on the way to a path, and of the directory there. -/
def rulesInScope (path : List Name) : List (GitignoreRule Pattern) :=
  path.inits.flatMap (ownRules options root)

/-- The rules of the directories on the way to a path. -/
def rulesAbove (path : List Name) : List (GitignoreRule Pattern) :=
  path.inits.dropLast.flatMap (ownRules options root)

@[simp] theorem rulesAbove_nil :
    (rulesAbove options root [] : List (GitignoreRule Pattern)) = [] := rfl

@[simp] theorem rulesAbove_concat (path : List Name) (name : Name) :
    (rulesAbove options root (path ++ [name]) : List (GitignoreRule Pattern)) =
      rulesInScope options root path := by
  rw [rulesAbove, inits_concat, List.dropLast_concat, rulesInScope]

theorem rulesInScope_eq (path : List Name) :
    (rulesInScope options root path : List (GitignoreRule Pattern)) =
      rulesAbove options root path ++ ownRules options root path := by
  cases path using List.reverseRecOn with
  | nil => rw [rulesAbove_nil, List.nil_append, rulesInScope, List.inits, List.flatMap_singleton]
  | append_singleton path name =>
    rw [rulesAbove_concat, rulesInScope, inits_concat, List.flatMap_append, List.flatMap_singleton]
    rfl

variable {options root}

theorem rulesIn_append (directory : Directory) (relativePath : Text)
    (inherited : List (GitignoreRule Pattern)) :
    rulesIn options directory relativePath inherited =
      (rulesIn options directory relativePath []).map (inherited ++ ·) := by
  unfold rulesIn
  split
  case isTrue h =>
    unfold loadGitignoreRules
    split
    case h_1 => simp [Except.map]
    case h_2 => exact parseGitignoreRules_append ..
    case h_3 => rfl
  case isFalse h => simp [Except.map]

/-- Whether the rules of a directory can be read does not depend on what is inherited. -/
theorem exists_rulesIn_iff (directory : Directory) (relativePath : Text)
    (inherited : List (GitignoreRule Pattern)) :
    (∃ rules, rulesIn options directory relativePath inherited = .ok rules) ↔
      ∃ rules : List (GitignoreRule Pattern),
        rulesIn options directory relativePath [] = .ok rules := by
  rw [rulesIn_append]
  cases rulesIn options directory relativePath ([] : List (GitignoreRule Pattern)) with
  | error error => simp [Except.map]
  | ok rules => simp [Except.map]

theorem ownRules_eq {path : List Name} {directory : Directory} {own : List (GitignoreRule Pattern)}
    (hdirectory : root.node.at? path = some directory.node)
    (h : rulesIn options directory (pathText path) [] = .ok own) :
    ownRules options root path = own := by
  unfold ownRules
  rw [hdirectory, Option.bind_some, Directory.openDirectory?_node]
  simp only [h]

/-- With the rules above it at hand, a directory comes to the rules in its scope. -/
theorem rulesIn_eq_ok {path : List Name} {directory : Directory}
    {rules : List (GitignoreRule Pattern)} (hdirectory : root.node.at? path = some directory.node)
    (h : rulesIn options directory (pathText path) (rulesAbove options root path) = .ok rules) :
    rules = rulesInScope options root path := by
  rw [rulesIn_append] at h
  rw [rulesInScope_eq]
  cases hown : rulesIn options directory (pathText path) ([] : List (GitignoreRule Pattern)) with
  | error error =>
    rw [hown] at h
    cases h
  | ok own =>
    rw [hown] at h
    rw [ownRules_eq hdirectory hown]
    exact (Except.ok.inj h).symm

end Scope

/-! ## Entries that are kept -/

section Kept

variable (judge : List (GitignoreRule Pattern) → Text → Bool → Bool) (options : FindOptions)
  (root : Directory)

/-- The entry at the end of a path is ignored by the rules in scope in its directory. -/
def Ignored (path : List Name) : Prop :=
  ∃ node, root.node.at? path = some node ∧
    judge (rulesInScope options root path.dropLast) (pathText path) node.isDirectory = true

/-- The entry at the end of a path is a directory of git. -/
def IsGitDirectory (path : List Name) : Prop :=
  path.getLast? = some gitName ∧ ∃ directory : Directory, root.node.at? path = some directory.node

/-- With gitignore on, nothing on a path, its end included, is ignored or a directory of git. -/
def Kept (path : List Name) : Prop :=
  options.respectGitignore = true → ∀ above, above ≠ [] → above <+: path →
    ¬ Ignored judge options root above ∧ ¬ IsGitDirectory root above

/-- Whether the entry at the end of a path is passed over. -/
def Skipped (path : List Name) : Prop :=
  ∃ above name node, path = above ++ [name] ∧ root.node.at? path = some node ∧
    skipsEntry judge options (rulesInScope options root above) (pathText path) name node = true

/-- Behind `path`, nothing on the way along `rest` is passed over. -/
def KeptBelow (path rest : List Name) : Prop :=
  ∀ above, above ≠ [] → above <+: rest → ¬ Skipped judge options root (path ++ above)

/-- Behind `path`, the way along `rest` leads to a node, and nothing on it is passed over. -/
def LeadsTo (path rest : List Name) (node : Node) : Prop :=
  root.node.at? (path ++ rest) = some node ∧ KeptBelow judge options root path rest

variable {judge options root}

theorem skipped_concat_iff {path : List Name} {name : Name} {node : Node}
    (h : root.node.at? (path ++ [name]) = some node) :
    Skipped judge options root (path ++ [name]) ↔
      skipsEntry judge options (rulesInScope options root path) (pathText (path ++ [name])) name
        node = true := by
  constructor
  · rintro ⟨above, name', node', hpath, hnode, hskips⟩
    obtain ⟨rfl, hname⟩ := List.append_inj' hpath rfl
    obtain rfl := List.singleton_inj.mp hname
    obtain rfl := Option.some.inj (h.symm.trans hnode)
    exact hskips
  · intro hskips
    exact ⟨path, name, node, rfl, h, hskips⟩

theorem skipped_iff {path : List Name} (hne : path ≠ []) :
    Skipped judge options root path ↔
      options.respectGitignore = true ∧
        (Ignored judge options root path ∨ IsGitDirectory root path) := by
  cases path using List.reverseRecOn with
  | nil => exact absurd rfl hne
  | append_singleton path name =>
    cases hnode : root.node.at? (path ++ [name]) with
    | none => simp [Skipped, Ignored, IsGitDirectory, hnode]
    | some node =>
      have hdirectory : (∃ directory : Directory, node = directory.node) ↔ node.isDirectory = true :=
        (Node.isDirectory_eq_true_iff node).symm
      rw [skipped_concat_iff hnode]
      simp [Ignored, IsGitDirectory, hnode, skipsEntry, hdirectory, or_comm]

theorem kept_iff (path : List Name) :
    Kept judge options root path ↔ KeptBelow judge options root [] path := by
  unfold Kept KeptBelow
  constructor
  · intro h above hne habove hskipped
    rw [List.nil_append, skipped_iff hne] at hskipped
    obtain ⟨hignored, hgit⟩ := h hskipped.1 above hne habove
    exact hskipped.2.elim hignored hgit
  · intro h hrespect above hne habove
    have hkept := h above hne habove
    rw [List.nil_append, skipped_iff hne, not_and, not_or] at hkept
    exact hkept hrespect

/-- An entry is kept if its directory is and it is not passed over itself. -/
theorem kept_concat_iff (path : List Name) (name : Name) :
    Kept judge options root (path ++ [name]) ↔
      Kept judge options root path ∧ ¬ Skipped judge options root (path ++ [name]) := by
  simp only [kept_iff, KeptBelow, List.nil_append]
  constructor
  · intro h
    constructor
    · intro above hne habove
      exact h above hne (habove.trans (List.prefix_append ..))
    · exact h _ (by simp) (List.prefix_refl _)
  · rintro ⟨hpath, hname⟩ above hne habove
    rcases List.prefix_concat_iff.mp habove with rfl | habove
    · exact hname
    · exact hpath above hne habove

@[simp] theorem keptBelow_nil (path : List Name) : KeptBelow judge options root path [] := by
  intro above hne habove
  exact absurd (List.prefix_nil.mp habove) hne

theorem keptBelow_cons_iff (path : List Name) (name : Name) (rest : List Name) :
    KeptBelow judge options root path (name :: rest) ↔
      ¬ Skipped judge options root (path ++ [name]) ∧
        KeptBelow judge options root (path ++ [name]) rest := by
  constructor
  · intro h
    constructor
    · exact h [name] (by simp) ⟨rest, rfl⟩
    · intro above _ habove
      rw [List.append_assoc]
      exact h (name :: above) (by simp) (List.prefix_cons_inj name |>.mpr habove)
  · rintro ⟨hname, h⟩ above hne habove
    cases above with
    | nil => exact absurd rfl hne
    | cons name' above =>
      obtain ⟨rfl, hrest⟩ := List.cons_prefix_cons.mp habove
      by_cases hnil : above = []
      · subst hnil
        exact hname
      · have := h above hnil hrest
        rwa [List.append_assoc] at this

theorem leadsTo_nil {path : List Name} {node : Node} (h : root.node.at? path = some node) :
    LeadsTo judge options root path [] node :=
  ⟨(List.append_nil path).symm ▸ h, keptBelow_nil path⟩

/-- Below a directory, the way leads through an entry that is not passed over. -/
theorem leadsTo_cons_iff {path : List Name} {directory : Directory}
    (hdirectory : root.node.at? path = some directory.node) (name : Name) (rest : List Name)
    (node : Node) :
    LeadsTo judge options root path (name :: rest) node ↔
      ∃ below, (name, below) ∈ directory.entries ∧ ¬ Skipped judge options root (path ++ [name]) ∧
        LeadsTo judge options root (path ++ [name]) rest node := by
  rw [LeadsTo, keptBelow_cons_iff, Directory.at?_append_cons_iff hdirectory]
  constructor
  · rintro ⟨⟨below, hentry, hbelow⟩, hkept, hrest⟩
    refine ⟨below, hentry, hkept, ?_, hrest⟩
    rw [Node.at?_append, Directory.at?_concat_of_mem hdirectory hentry]
    exact hbelow
  · rintro ⟨below, hentry, hkept, hat, hrest⟩
    rw [Node.at?_append, Directory.at?_concat_of_mem hdirectory hentry] at hat
    exact ⟨⟨below, hentry, hat⟩, hkept, hrest⟩

end Kept

/-! ## What the recursion finds -/

section Recursion

variable {judge : List (GitignoreRule Pattern) → Text → Bool → Bool} {options : FindOptions}
  {includePattern : Pattern} {root : Directory}

theorem Node.findIn_eq_of_not_directory {node : Node} (h : node.openDirectory? = none)
    (relativePath : Text) (inherited : List (GitignoreRule Pattern)) :
    node.findIn judge options includePattern relativePath inherited = .ok [] := by
  cases node with
  | directory names distinct child => cases h
  | regularFile contents => rfl
  | symbolicLink => rfl
  | other => rfl

/-- Only below a directory is there something to find. -/
theorem Node.exists_directory_of_mem_findIn {node : Node} {relativePath : Text}
    {inherited : List (GitignoreRule Pattern)} {below : List PathMatch}
    (h : node.findIn judge options includePattern relativePath inherited = .ok below)
    {pathMatch : PathMatch} (hmem : pathMatch ∈ below) :
    ∃ directory : Directory, node = directory.node := by
  cases hopen : node.openDirectory? with
  | some directory => exact ⟨directory, (Node.openDirectory?_eq_some_iff ..).mp hopen⟩
  | none =>
    rw [Node.findIn_eq_of_not_directory hopen] at h
    obtain rfl := Except.ok.inj h
    exact absurd hmem List.not_mem_nil

/-- A successful search in a directory has the rules in scope there. -/
theorem Directory.findIn_eq_ok_iff {path : List Name} {directory : Directory}
    {found : List PathMatch} (hdirectory : root.node.at? path = some directory.node) :
    directory.findIn judge options includePattern (pathText path) (rulesAbove options root path) =
        .ok found ↔
      (∃ rules : List (GitignoreRule Pattern),
        rulesIn options directory (pathText path) [] = .ok rules) ∧
        collect (findAt judge options includePattern (pathText path) (rulesInScope options root path))
          directory.entries = .ok found := by
  rw [Directory.findIn_eq, bind_eq_ok,
    ← exists_rulesIn_iff directory (pathText path) (rulesAbove options root path)]
  constructor
  · rintro ⟨rules, hrules, hfound⟩
    rw [rulesIn_eq_ok hdirectory hrules] at hfound
    exact ⟨⟨rules, hrules⟩, hfound⟩
  · rintro ⟨⟨rules, hrules⟩, hfound⟩
    rw [← rulesIn_eq_ok hdirectory hrules] at hfound
    exact ⟨rules, hrules, hfound⟩

/-- The search at an entry: nothing where it is passed over, else the entry and what is
below. -/
theorem findAt_eq_ok_iff {path : List Name} {directory : Directory} {entry : Name × Node}
    {part : List PathMatch} (hdirectory : root.node.at? path = some directory.node)
    (hentry : entry ∈ directory.entries) :
    findAt judge options includePattern (pathText path) (rulesInScope options root path) entry =
        .ok part ↔
      (Skipped judge options root (path ++ [entry.1]) ∧ part = []) ∨
        (¬ Skipped judge options root (path ++ [entry.1]) ∧ ∃ below,
          entry.2.findIn judge options includePattern (pathText (path ++ [entry.1]))
              (rulesAbove options root (path ++ [entry.1])) = .ok below ∧
            part = listed options includePattern (pathText (path ++ [entry.1])) entry.2 ++ below) := by
  have hnode := Directory.at?_concat_of_mem hdirectory hentry
  rw [skipped_concat_iff hnode, findAt, ← pathText_concat, rulesAbove_concat]
  split
  case isTrue h =>
    simp only [h, Except.ok.injEq, true_and, not_true_eq_false, false_and, or_false]
    exact eq_comm
  case isFalse h =>
    simp only [h, Bool.false_eq_true, false_and, not_false_eq_true, true_and, false_or, bind_eq_ok,
      Except.ok.injEq]
    exact exists_congr fun below => and_congr_right fun _ => eq_comm

/-- What the search in a directory finds: the entries below it that are kept. -/
theorem Directory.mem_findIn_iff (directory : Directory) {path : List Name} {found : List PathMatch}
    (hdirectory : root.node.at? path = some directory.node)
    (h : directory.findIn judge options includePattern (pathText path) (rulesAbove options root path) =
      .ok found) (pathMatch : PathMatch) :
    pathMatch ∈ found ↔ ∃ rest node, rest ≠ [] ∧ LeadsTo judge options root path rest node ∧
      pathMatch ∈ listed options includePattern (pathText (path ++ rest)) node := by
  induction directory using Directory.induction generalizing path found with
  | step directory ih =>
    obtain ⟨-, hcollect⟩ := (findIn_eq_ok_iff hdirectory).mp h
    rw [mem_collect_iff hcollect]
    constructor
    · rintro ⟨entry, hentry, part, hpart, hmem⟩
      have hnode := Directory.at?_concat_of_mem hdirectory hentry
      rcases (findAt_eq_ok_iff hdirectory hentry).mp hpart with ⟨-, rfl⟩ | ⟨hkept, below, hbelow, rfl⟩
      · exact absurd hmem List.not_mem_nil
      · rcases List.mem_append.mp hmem with hmem | hmem
        · exact ⟨[entry.1], entry.2, by simp,
            (leadsTo_cons_iff hdirectory ..).mpr ⟨entry.2, hentry, hkept, leadsTo_nil hnode⟩, hmem⟩
        · obtain ⟨child, hchild⟩ := Node.exists_directory_of_mem_findIn hbelow hmem
          rw [hchild] at hnode hbelow
          obtain ⟨rest, node, -, hrest, hlisted⟩ := (ih entry hentry child hchild hnode hbelow).mp hmem
          rw [List.append_assoc] at hlisted
          exact ⟨entry.1 :: rest, node, by simp,
            (leadsTo_cons_iff hdirectory ..).mpr ⟨entry.2, hentry, hkept, hrest⟩, hlisted⟩
    · rintro ⟨rest, node, hne, hrest, hlisted⟩
      obtain ⟨name, rest, rfl⟩ := List.exists_cons_of_ne_nil hne
      obtain ⟨below, hentry, hkept, hrest⟩ := (leadsTo_cons_iff hdirectory ..).mp hrest
      have hnode := Directory.at?_concat_of_mem hdirectory hentry
      obtain ⟨part, hpart⟩ := exists_collect_eq_ok_iff.mp ⟨found, hcollect⟩ _ hentry
      refine ⟨_, hentry, part, hpart, ?_⟩
      rcases (findAt_eq_ok_iff hdirectory hentry).mp hpart with
        ⟨hskipped, -⟩ | ⟨-, found', hfound', rfl⟩
      · exact absurd hskipped hkept
      · by_cases hnil : rest = []
        · subst hnil
          have hat := hrest.1
          rw [List.append_nil] at hat
          obtain rfl := Option.some.inj (hnode.symm.trans hat)
          exact List.mem_append_left _ hlisted
        · apply List.mem_append_right
          have hat := hrest.1
          rw [Node.at?_append, hnode, Option.bind_some] at hat
          obtain ⟨child, hchild⟩ := Node.exists_directory_of_at?_ne_nil hnil hat
          rw [hchild] at hnode hfound'
          rw [List.append_cons] at hlisted
          exact (ih _ hentry child hchild hnode hfound').mpr ⟨rest, node, hnil, hrest, hlisted⟩

/-- The search in a directory succeeds if the rules of all directories that it comes to
can be read. -/
theorem Directory.exists_findIn_iff (directory : Directory) {path : List Name}
    (hdirectory : root.node.at? path = some directory.node) :
    (∃ found, directory.findIn judge options includePattern (pathText path)
        (rulesAbove options root path) = .ok found) ↔
      ∀ rest below, LeadsTo judge options root path rest (Directory.node below) →
        ∃ rules : List (GitignoreRule Pattern),
          rulesIn options below (pathText (path ++ rest)) [] = .ok rules := by
  induction directory using Directory.induction generalizing path with
  | step directory ih =>
    simp only [findIn_eq_ok_iff hdirectory, exists_and_left, exists_collect_eq_ok_iff]
    constructor
    · rintro ⟨hown, hentries⟩ rest below hrest
      cases rest with
      | nil =>
        have hat := hrest.1
        rw [List.append_nil] at hat ⊢
        obtain rfl := node_injective (Option.some.inj (hdirectory.symm.trans hat))
        exact hown
      | cons name rest =>
        obtain ⟨node, hentry, hkept, hrest⟩ := (leadsTo_cons_iff hdirectory ..).mp hrest
        have hnode := Directory.at?_concat_of_mem hdirectory hentry
        obtain ⟨part, hpart⟩ := hentries _ hentry
        rcases (findAt_eq_ok_iff hdirectory hentry).mp hpart with
          ⟨hskipped, -⟩ | ⟨-, found, hfound, -⟩
        · exact absurd hskipped hkept
        · have hat := hrest.1
          rw [Node.at?_append, hnode, Option.bind_some] at hat
          obtain ⟨child, hchild⟩ := Node.exists_directory_of_at? hat
          rw [hchild] at hnode hfound
          rw [List.append_cons]
          exact (ih _ hentry child hchild hnode).mp ⟨found, hfound⟩ rest below hrest
    · intro hloads
      constructor
      · simpa using hloads [] directory (leadsTo_nil hdirectory)
      · intro entry hentry
        have hnode := Directory.at?_concat_of_mem hdirectory hentry
        by_cases hskipped : Skipped judge options root (path ++ [entry.1])
        · exact ⟨[], (findAt_eq_ok_iff hdirectory hentry).mpr (Or.inl ⟨hskipped, rfl⟩)⟩
        · have hbelow : ∃ below, entry.2.findIn judge options includePattern
              (pathText (path ++ [entry.1])) (rulesAbove options root (path ++ [entry.1])) = .ok below := by
            cases hopen : entry.2.openDirectory? with
            | none => exact ⟨[], Node.findIn_eq_of_not_directory hopen ..⟩
            | some child =>
              have hchild := (Node.openDirectory?_eq_some_iff ..).mp hopen
              rw [hchild] at hnode ⊢
              apply (ih _ hentry child hchild hnode).mpr
              intro rest below hrest
              rw [← List.append_cons]
              exact hloads _ below
                ((leadsTo_cons_iff hdirectory ..).mpr ⟨entry.2, hentry, hskipped, hrest⟩)
          obtain ⟨below, hbelow⟩ := hbelow
          exact ⟨_, (findAt_eq_ok_iff hdirectory hentry).mpr (Or.inr ⟨hskipped, below, hbelow, rfl⟩)⟩

/-- What is found at an entry has a path through it. -/
theorem exists_path_of_mem_findAt {path : List Name} {directory : Directory} {entry : Name × Node}
    {part : List PathMatch} (hdirectory : root.node.at? path = some directory.node)
    (hentry : entry ∈ directory.entries)
    (hpart : findAt judge options includePattern (pathText path) (rulesInScope options root path) entry =
      .ok part) {pathMatch : PathMatch} (hmem : pathMatch ∈ part) :
    ∃ rest, pathMatch.path = pathText (path ++ entry.1 :: rest) := by
  have hnode := Directory.at?_concat_of_mem hdirectory hentry
  rcases (findAt_eq_ok_iff hdirectory hentry).mp hpart with ⟨-, rfl⟩ | ⟨-, below, hbelow, rfl⟩
  · exact absurd hmem List.not_mem_nil
  · rcases List.mem_append.mp hmem with hmem | hmem
    · exact ⟨[], (mem_listed_iff ..).mp hmem |>.1 ▸ rfl⟩
    · obtain ⟨child, hchild⟩ := Node.exists_directory_of_mem_findIn hbelow hmem
      rw [hchild] at hnode hbelow
      obtain ⟨rest, node, -, -, hlisted⟩ := (Directory.mem_findIn_iff child hnode hbelow _).mp hmem
      rw [← List.append_cons] at hlisted
      exact ⟨rest, (mem_listed_iff ..).mp hlisted |>.1 ▸ rfl⟩

/-- Nothing is found twice. -/
theorem Directory.nodup_findIn (directory : Directory) {path : List Name} {found : List PathMatch}
    (hdirectory : root.node.at? path = some directory.node)
    (h : directory.findIn judge options includePattern (pathText path) (rulesAbove options root path) =
      .ok found) : found.Nodup := by
  induction directory using Directory.induction generalizing path found with
  | step directory ih =>
    obtain ⟨-, hcollect⟩ := (findIn_eq_ok_iff hdirectory).mp h
    apply nodup_collect hcollect directory.nodup_entries
    · intro entry hentry part hpart
      have hnode := Directory.at?_concat_of_mem hdirectory hentry
      rcases (findAt_eq_ok_iff hdirectory hentry).mp hpart with ⟨-, rfl⟩ | ⟨-, below, hbelow, rfl⟩
      · exact List.nodup_nil
      · cases hopen : entry.2.openDirectory? with
        | none =>
          rw [Node.findIn_eq_of_not_directory hopen] at hbelow
          obtain rfl := Except.ok.inj hbelow
          rw [List.append_nil]
          exact nodup_listed ..
        | some child =>
          have hchild := (Node.openDirectory?_eq_some_iff ..).mp hopen
          rw [hchild] at hnode hbelow
          apply (nodup_listed ..).append (ih entry hentry child hchild hnode hbelow)
          intro pathMatch hlisted hmem
          obtain ⟨rest, node, hne, -, hbelow⟩ := (Directory.mem_findIn_iff child hnode hbelow _).mp hmem
          have hsame := congrArg PathMatch.path
            (((mem_listed_iff ..).mp hlisted).1.symm.trans ((mem_listed_iff ..).mp hbelow).1)
          exact hne (List.self_eq_append_right.mp (pathText_injective hsame))
    · intro entry hentry entry' hentry' hne part part' hpart hpart' pathMatch hmem hmem'
      obtain ⟨rest, hrest⟩ := exists_path_of_mem_findAt hdirectory hentry hpart hmem
      obtain ⟨rest', hrest'⟩ := exists_path_of_mem_findAt hdirectory hentry' hpart' hmem'
      have hname := List.append_cancel_left (pathText_injective (hrest.symm.trans hrest'))
      exact hne (directory.eq_of_name_eq hentry hentry' (List.cons.inj hname).1)

/-! ## From the root -/

variable {found : List PathMatch}

theorem Directory.exists_findIn_root_iff :
    (∃ found, root.findIn judge options includePattern [] [] = .ok found) ↔
      ∀ path directory, root.node.at? path = some (Directory.node directory) →
        Kept judge options root path → ∃ rules : List (GitignoreRule Pattern),
          rulesIn options directory (pathText path) [] = .ok rules := by
  simp only [kept_iff, ← and_imp]
  exact Directory.exists_findIn_iff root (Node.at?_nil _)

theorem Directory.mem_findIn_root_iff (h : root.findIn judge options includePattern [] [] = .ok found)
    (pathMatch : PathMatch) :
    pathMatch ∈ found ↔ ∃ path node, path ≠ [] ∧ root.node.at? path = some node ∧
      Kept judge options root path ∧
      pathMatch ∈ listed options includePattern (pathText path) node := by
  have hmem := Directory.mem_findIn_iff root (Node.at?_nil _) h pathMatch
  simpa only [LeadsTo, ← kept_iff, and_assoc, List.nil_append] using hmem

/-- No path is found twice. -/
theorem Directory.nodup_paths_findIn_root
    (h : root.findIn judge options includePattern [] [] = .ok found) :
    (found.map PathMatch.path).Nodup := by
  apply List.Nodup.map_on _ (Directory.nodup_findIn root (Node.at?_nil _) h)
  intro pathMatch hmem pathMatch' hmem' hsame
  obtain ⟨path, node, -, hnode, -, hlisted⟩ := (mem_findIn_root_iff h _).mp hmem
  obtain ⟨path', node', -, hnode', -, hlisted'⟩ := (mem_findIn_root_iff h _).mp hmem'
  have heq := ((mem_listed_iff ..).mp hlisted).1
  have heq' := ((mem_listed_iff ..).mp hlisted').1
  rw [heq, heq'] at hsame
  obtain rfl := pathText_injective hsame
  obtain rfl := Option.some.inj (hnode.symm.trans hnode')
  exact heq.trans heq'.symm

end Recursion

end ManInTheBox.Guest
