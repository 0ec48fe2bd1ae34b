import ManInTheBox.Guest.Gitignore
import ManInTheBox.Guest.Tree
import ManInTheBox.Library.Collect
import ManInTheBox.Library.Utf8

/-! # Finding paths in the guest

The guest walks the tree below its root with a stack of directories that it has yet to
list. One vector holds the rules of all `.gitignore` files in force; with every pending
directory the guest keeps how much of the vector is in force there.
-/

namespace ManInTheBox.Guest

open Library

variable {Pattern : Type} [Glob Pattern]

structure PathMatch where
  path : Text
  isDir : Bool
  deriving DecidableEq

structure FindOptions where
  includeFiles : Bool := true
  includeDirectories : Bool := false
  respectGitignore : Bool := true

structure PendingDirectory where
  descriptor : Directory
  relativePath : Text
  inheritedRulesLen : ℕ

/-- The root is the directory that is open as `.`, or else the first that is open. -/
def selectRootPreopen (preopens : List (Directory × Text)) : Except Text Directory :=
  match preopens.find? fun preopen => preopen.2 = ['.'] with
  | some preopen => .ok preopen.1
  | none =>
    match preopens.head? with
    | some preopen => .ok preopen.1
    | none => .error "wasi preopens are empty; no guest filesystem root".toList

/-! ## One entry -/

def gitName : Name := ⟨".git".toList, by decide, by decide⟩

section Entry

variable (judge : List (GitignoreRule Pattern) → Text → Bool → Bool) (options : FindOptions)
  (includePattern : Pattern)

/-- Whether an entry is passed over. -/
def skipsEntry (rules : List (GitignoreRule Pattern)) (path : Text) (name : Name) (node : Node) :
    Bool :=
  options.respectGitignore &&
    (name = gitName && node.isDirectory || judge rules path node.isDirectory)

/-- The match that is recorded for an entry, if any. -/
def listed (path : Text) (node : Node) : List PathMatch :=
  match node.descriptorType with
  | .directory =>
    if options.includeDirectories && matchesPathPattern includePattern path then
      [{ path, isDir := true }]
    else []
  | .regularFile =>
    if options.includeFiles && matchesPathPattern includePattern path then
      [{ path, isDir := false }]
    else []
  | _ => []

/-- An entry of one of the kinds asked for is recorded if its path matches the pattern. -/
theorem mem_listed_iff (path : Text) (node : Node) (pathMatch : PathMatch) :
    pathMatch ∈ listed options includePattern path node ↔
      pathMatch = { path, isDir := node.isDirectory } ∧ matchesPathPattern includePattern path = true ∧
        (node.descriptorType = .directory ∧ options.includeDirectories = true ∨
          node.descriptorType = .regularFile ∧ options.includeFiles = true) := by
  unfold listed Node.isDirectory
  cases node.descriptorType with
  | regularFile =>
    simp only [Bool.and_eq_true, List.mem_ite_nil_right, List.mem_cons, List.not_mem_nil, or_false,
      reduceCtorEq, decide_false, false_and, true_and, false_or]
    constructor
    · rintro ⟨⟨hfiles, hmatches⟩, hmatch⟩
      exact ⟨hmatch, hmatches, hfiles⟩
    · rintro ⟨hmatch, hmatches, hfiles⟩
      exact ⟨⟨hfiles, hmatches⟩, hmatch⟩
  | directory =>
    simp only [Bool.and_eq_true, List.mem_ite_nil_right, List.mem_cons, List.not_mem_nil, or_false,
      decide_true, true_and, reduceCtorEq, false_and]
    constructor
    · rintro ⟨⟨hdirectories, hmatches⟩, hmatch⟩
      exact ⟨hmatch, hmatches, hdirectories⟩
    · rintro ⟨hmatch, hmatches, hdirectories⟩
      exact ⟨⟨hdirectories, hmatches⟩, hmatch⟩
  | symbolicLink => simp
  | other => simp

theorem nodup_listed (path : Text) (node : Node) :
    (listed options includePattern path node).Nodup := by
  unfold listed
  split
  case h_1 => split <;> simp
  case h_2 => split <;> simp
  case h_3 => exact List.nodup_nil

/-- One entry of a directory, with the stack and the matches so far. -/
def visitEntry (relativePath : Text) (rules : List (GitignoreRule Pattern))
    (state : List PendingDirectory × List PathMatch) (entry : Name × Node) :
    List PendingDirectory × List PathMatch :=
  let childRelativePath := joinRelativePath relativePath entry.1.text
  if skipsEntry judge options rules childRelativePath entry.1 entry.2 then state
  else
    let pathMatches := state.2 ++ listed options includePattern childRelativePath entry.2
    match entry.2.openDirectory? with
    | none => (state.1, pathMatches)
    | some descriptor =>
      ({ descriptor, relativePath := childRelativePath, inheritedRulesLen := rules.length }
          :: state.1,
        pathMatches)

/-- The directories that the walk may still come to. -/
def pendingDirectories (stack : List PendingDirectory) : ℕ :=
  (stack.map fun directory => directory.descriptor.directories).sum

theorem pendingDirectories_visitEntry (relativePath : Text) (rules : List (GitignoreRule Pattern))
    (state : List PendingDirectory × List PathMatch) (entry : Name × Node) :
    pendingDirectories (visitEntry judge options includePattern relativePath rules state entry).1 ≤
      pendingDirectories state.1 + entry.2.directories := by
  unfold visitEntry
  simp only
  split
  case isTrue h => exact Nat.le_add_right ..
  case isFalse h =>
    split
    case h_1 hnode => exact Nat.le_add_right ..
    case h_2 descriptor hnode =>
      rw [(Node.openDirectory?_eq_some_iff ..).mp hnode, pendingDirectories, List.map_cons,
        List.sum_cons, Nat.add_comm]
      rfl

theorem pendingDirectories_foldl (relativePath : Text) (rules : List (GitignoreRule Pattern))
    (entries : List (Name × Node)) (state : List PendingDirectory × List PathMatch) :
    pendingDirectories
        (entries.foldl (visitEntry judge options includePattern relativePath rules) state).1 ≤
      pendingDirectories state.1 + (entries.map fun entry => entry.2.directories).sum := by
  induction entries generalizing state with
  | nil => exact Nat.le_add_right ..
  | cons entry entries ih =>
    have hentry := pendingDirectories_visitEntry judge options includePattern relativePath rules state
      entry
    have hrest := ih (visitEntry judge options includePattern relativePath rules state entry)
    rw [List.foldl_cons, List.map_cons, List.sum_cons]
    omega

end Entry

/-! ## The rules of a directory -/

def gitignoreName : Name := ⟨".gitignore".toList, by decide, by decide⟩

/-- The step at which something that is no regular file refuses to be read, with the name
of the error. -/
inductive Refusal
  | opening (errorName : Text)
  | reading (errorName : Text)

/-- How the host refuses to read what is no regular file. -/
class GuestFilesystem where
  refuse : DescriptorType → Refusal

variable [GuestFilesystem]

def refusalText (path : Text) : Refusal → Text
  | .opening errorName => "failed opening `".toList ++ displayPath path ++ "`: ".toList ++ errorName
  | .reading errorName =>
    "failed reading file `".toList ++ displayPath path ++ "`: ".toList ++ errorName

def loadGitignoreRules (directory : Directory) (baseDir : Text)
    (rules : List (GitignoreRule Pattern)) : Except Text (List (GitignoreRule Pattern)) :=
  match directory.openAt? gitignoreName with
  | none => .ok rules
  | some (.regularFile contents) => parseGitignoreRules (fromUtf8Lossy contents) baseDir rules
  | some node =>
    .error (refusalText (joinRelativePath baseDir gitignoreName.text)
      (GuestFilesystem.refuse node.descriptorType))

/-- The rules in force in a directory, from those that are inherited. -/
def rulesIn (options : FindOptions) (directory : Directory) (relativePath : Text)
    (inherited : List (GitignoreRule Pattern)) : Except Text (List (GitignoreRule Pattern)) :=
  if options.respectGitignore then loadGitignoreRules directory relativePath inherited
  else .ok inherited

/-! ## The walk -/

section Walk

variable (judge : List (GitignoreRule Pattern) → Text → Bool → Bool) (options : FindOptions)
  (includePattern : Pattern)

/-- The loop over the stack, the top of which comes first. -/
def findLoop : List PendingDirectory → List (GitignoreRule Pattern) → List PathMatch →
    Except Text (List PathMatch)
  | [], _, pathMatches => .ok pathMatches
  | directory :: stack, gitignoreRules, pathMatches =>
    match rulesIn options directory.descriptor directory.relativePath
        (gitignoreRules.take directory.inheritedRulesLen) with
    | .error error => .error error
    | .ok gitignoreRules =>
      let visited := directory.descriptor.entries.foldl
        (visitEntry judge options includePattern directory.relativePath gitignoreRules)
        (stack, pathMatches)
      findLoop visited.1 gitignoreRules visited.2
termination_by stack => pendingDirectories stack
decreasing_by
  apply Nat.lt_of_le_of_lt (pendingDirectories_foldl judge options includePattern
    directory.relativePath gitignoreRules directory.descriptor.entries (stack, pathMatches))
  have hdirectory := directory.descriptor.directories_eq
  have hstack : pendingDirectories (directory :: stack) =
      directory.descriptor.directories + pendingDirectories stack := rfl
  change pendingDirectories stack + _ < _
  omega

end Walk

def invalidIncludePattern (pattern error : Text) : Text :=
  "invalid include pattern `".toList ++ pattern ++ "`: ".toList ++ error

/-- The walk with any way to judge whether a path is ignored. -/
def findWith (judge : List (GitignoreRule Pattern) → Text → Bool → Bool)
    (preopens : List (Directory × Text)) (pattern : Text) (options : FindOptions) :
    Except Text (List PathMatch) :=
  match Glob.new pattern with
  | .error error => .error (invalidIncludePattern pattern error)
  | .ok includePattern =>
    match selectRootPreopen preopens with
    | .error error => .error error
    | .ok root =>
      findLoop judge options includePattern
        [{ descriptor := root, relativePath := [], inheritedRulesLen := 0 }] [] []

/-- `find` itself. -/
def find (Pattern : Type) [Glob Pattern] (preopens : List (Directory × Text)) (pattern : Text)
    (options : FindOptions) : Except Text (List PathMatch) :=
  findWith (@pathIsIgnored Pattern _) preopens pattern options

/-! ## The recursive definition -/

section Recursion

variable (judge : List (GitignoreRule Pattern) → Text → Bool → Bool) (options : FindOptions)
  (includePattern : Pattern)

/-- What there is to find at a node and below, one directory after the other. -/
def Node.findIn : Node → Text → List (GitignoreRule Pattern) → Except Text (List PathMatch)
  | .directory names distinct child, relativePath, inherited => do
    let rules ← rulesIn options ⟨names, distinct, child⟩ relativePath inherited
    collect
      (fun i =>
        let path := joinRelativePath relativePath (names.get i).text
        if skipsEntry judge options rules path (names.get i) (child i) then .ok []
        else do
          let below ← (child i).findIn path rules
          .ok (listed options includePattern path (child i) ++ below))
      (List.finRange names.length)
  | _, _, _ => .ok []

def Directory.findIn (directory : Directory) (relativePath : Text)
    (inherited : List (GitignoreRule Pattern)) : Except Text (List PathMatch) :=
  directory.node.findIn judge options includePattern relativePath inherited

/-- What there is to find at an entry and below. -/
def findAt (relativePath : Text) (rules : List (GitignoreRule Pattern)) (entry : Name × Node) :
    Except Text (List PathMatch) :=
  let path := joinRelativePath relativePath entry.1.text
  if skipsEntry judge options rules path entry.1 entry.2 then .ok []
  else do
    let below ← entry.2.findIn judge options includePattern path rules
    .ok (listed options includePattern path entry.2 ++ below)

theorem Directory.findIn_eq (directory : Directory) (relativePath : Text)
    (inherited : List (GitignoreRule Pattern)) :
    directory.findIn judge options includePattern relativePath inherited =
      (do
        let rules ← rulesIn options directory relativePath inherited
        collect (findAt judge options includePattern relativePath rules) directory.entries) := by
  rw [Directory.findIn, Directory.node, Node.findIn, Directory.entries, List.ofFn_eq_map]
  congr 1
  funext rules
  rw [collect_map]
  rfl

end Recursion

end ManInTheBox.Guest
