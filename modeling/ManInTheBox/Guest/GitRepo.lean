import ManInTheBox.Library.Command
import ManInTheBox.Library.Utf8
import ManInTheBox.Library.ParentChain
import ManInTheBox.Server.Handshake

/-! # Git in a directory

`git.rs` runs git through the process runner of the policy and reads what it prints. Git
itself is known by what it does to a repository: the id of a commit fixes its parent, so
the history under a commit never changes.
-/

namespace ManInTheBox.Guest

open Library
open Server (trim isWhitespace)

/-! ## UTF-8 or an error -/

/-- The bytes are the beginning of a character that breaks off. -/
def breaksOff : List UInt8 → Bool
  | [first] => 0xc2 ≤ first && first ≤ 0xf4
  | [first, second] => beginsLongCharacter first second
  | [first, second, third] =>
    0xf0 ≤ first && beginsLongCharacter first second && isContinuationByte third
  | _ => false

/-- The text of the `Utf8Error`, from the byte at `index` after the next `skip` ones. -/
def utf8ErrorAfter : (index skip : ℕ) → List UInt8 → String
  | _, _, [] => ""
  | index, skip + 1, _ :: rest => utf8ErrorAfter (index + 1) skip rest
  | index, 0, byte :: rest =>
    match decodeFirst (byte :: rest) with
    | some c => utf8ErrorAfter (index + 1) (c.utf8Size - 1) rest
    | none =>
      if breaksOff (byte :: rest) then
        "incomplete utf-8 byte sequence from index " ++ toString index
      else
        "invalid utf-8 sequence of " ++ toString (replacedLength (byte :: rest)) ++
          " bytes from index " ++ toString index

/-- `String::from_utf8`: the bytes are text if decoding replaces none of them. -/
def fromUtf8 (bytes : List UInt8) : Except String String :=
  let text := fromUtf8Lossy bytes
  if encodeUtf8 text = bytes then .ok (String.ofList text) else .error (utf8ErrorAfter 0 0 bytes)

theorem fromUtf8_encodeUtf8 (text : String) : fromUtf8 (encodeUtf8 text.toList) = .ok text := by
  simp only [fromUtf8, fromUtf8Lossy_encodeUtf8, if_true, String.ofList_toList]

/-! ## Running git -/

/-- `run_process`: the program, its arguments, and what it prints. -/
abbrev RunProcess (γ : Type) := String → List String → Command γ String (List UInt8)

structure GitRepo where
  repoDir : String

structure GitSnapshot where
  sha : String
  branch : Option String
  deriving DecidableEq

def parseNonEmptyUtf8 (bytes : List UInt8) (commandLabel : String) : Except String String :=
  match fromUtf8 bytes with
  | .error error => .error (commandLabel ++ " output was not utf-8: " ++ error)
  | .ok text =>
    let trimmed := trim text
    if trimmed.isEmpty then .error (commandLabel ++ " returned an empty string") else .ok trimmed

def parseOptionalUtf8 (bytes : List UInt8) (commandLabel : String) :
    Except String (Option String) :=
  match fromUtf8 bytes with
  | .error error => .error (commandLabel ++ " output was not utf-8: " ++ error)
  | .ok text =>
    let trimmed := trim text
    if trimmed.isEmpty then .ok none else .ok (some trimmed)

namespace GitRepo

variable {γ : Type} (this : GitRepo) (runProcess : RunProcess γ)

def run (args : List String) : Command γ String (List UInt8) :=
  runProcess "git" (["-C", this.repoDir] ++ args)

def headSha : Command γ String String := do
  let output ← this.run runProcess ["rev-parse", "HEAD"]
  liftExcept (parseNonEmptyUtf8 output "git rev-parse HEAD")

def currentBranch : Command γ String (Option String) := do
  let output ← this.run runProcess ["branch", "--show-current"]
  liftExcept (parseOptionalUtf8 output "git branch --show-current")

def snapshot : Command γ String GitSnapshot := do
  let sha ← this.headSha runProcess
  let branch ← this.currentBranch runProcess
  return ⟨sha, branch⟩

def switchCreateOrReset (branch startPoint : String) : Command γ String Unit := do
  let _ ← this.run runProcess ["checkout", "--force", "-B", branch, startPoint]
  return ()

def addAll : Command γ String Unit := do
  let _ ← this.run runProcess ["add", "-A"]
  return ()

def commitAll (message : String) (allowEmpty : Bool) : Command γ String String := do
  let args := ["-c", "commit.gpgsign=false", "commit"] ++
    (if allowEmpty then ["--allow-empty"] else []) ++ ["-m", message]
  let _ ← this.run runProcess args
  this.headSha runProcess

end GitRepo

/-! ## What git does -/

/-- A repository as far as it can be told from its commits and names. -/
structure Repository where
  commits : Set String
  head : String
  branch : Option String
  branches : String → Option String

namespace Repository

/-- A new commit on what is checked out; the branch that is checked out moves along. -/
def commit (this : Repository) (sha : String) : Repository where
  commits := insert sha this.commits
  head := sha
  branch := this.branch
  branches name := if this.branch = some name then some sha else this.branches name

/-- `checkout -B`: the branch is created or reset, and checked out. -/
def checkout (this : Repository) (branch startPoint : String) : Repository where
  commits := this.commits
  head := startPoint
  branch := some branch
  branches name := if name = branch then some startPoint else this.branches name

end Repository

def hexDigits : List Char :=
  ['0', '1', '2', '3', '4', '5', '6', '7', '8', '9', 'a', 'b', 'c', 'd', 'e', 'f']

/-- The id of a commit in full. -/
def ObjectName (sha : String) : Prop := sha ≠ "" ∧ ∀ c ∈ sha.toList, c ∈ hexDigits

/-- The commands of `git.rs`, run in a directory where `view` reads the repository off the state. A
command that fails or is killed may still have taken effect. -/
structure GitOk {γ : Type} (runProcess : RunProcess γ) (repoDir : String) (view : γ → Repository)
    (parent : String → Option String) : Prop where
  revParse : ∀ g, (runProcess "git" ["-C", repoDir, "rev-parse", "HEAD"]).After g
    (fun output g' => view g' = view g ∧ ObjectName (view g).head ∧
      output = encodeUtf8 ((view g).head ++ "\n").toList)
    fun _ g' => view g' = view g
  showCurrent : ∀ g, (runProcess "git" ["-C", repoDir, "branch", "--show-current"]).After g
    (fun _ g' => view g' = view g) fun _ g' => view g' = view g
  add : ∀ g, (runProcess "git" ["-C", repoDir, "add", "-A"]).After g
    (fun _ g' => view g' = view g) fun _ g' => view g' = view g
  commit : ∀ message g, (runProcess "git" ["-C", repoDir, "-c", "commit.gpgsign=false", "commit",
      "--allow-empty", "-m", message]).After g
    (fun _ g' => ∃ sha, parent sha = some (view g).head ∧ view g' = (view g).commit sha)
    fun _ g' => view g' = view g ∨
      ∃ sha, parent sha = some (view g).head ∧ view g' = (view g).commit sha
  checkout : ∀ branch startPoint g, startPoint ∈ (view g).commits →
    (runProcess "git" ["-C", repoDir, "checkout", "--force", "-B", branch, startPoint]).After g
      (fun _ g' => view g' = (view g).checkout branch startPoint)
      fun _ g' => view g' = view g ∨ view g' = (view g).checkout branch startPoint

theorem trim_objectName {sha : String} (h : ObjectName sha) : trim (sha ++ "\n") = sha := by
  have hplain : ∀ c ∈ sha.toList, isWhitespace c = false := by
    have hdigits : ∀ c ∈ hexDigits, isWhitespace c = false := by simp [hexDigits, isWhitespace]
    exact fun c hc => hdigits c (h.2 c hc)
  have hne : sha.toList ≠ [] := by
    simpa using h.1
  have hfront : (sha.toList ++ ['\n']).dropWhile isWhitespace = sha.toList ++ ['\n'] := by
    obtain ⟨c, rest, hsha⟩ := List.exists_cons_of_ne_nil hne
    rw [hsha, List.cons_append, List.dropWhile_cons_of_neg]
    simp [hplain c (by simp [hsha])]
  have hback : sha.toList.rdropWhile isWhitespace = sha.toList := by
    rw [List.rdropWhile_eq_self_iff]
    intro hne'
    simp [hplain _ (List.getLast_mem hne')]
  have hnewline : isWhitespace '\n' = true := by decide
  have hlist : (sha ++ "\n").toList = sha.toList ++ ['\n'] := by simp
  rw [trim, hlist, hfront, List.rdropWhile_concat_pos _ _ _ hnewline, hback, String.ofList_toList]

namespace GitOk

variable {γ : Type} {runProcess : RunProcess γ} {repo : GitRepo} {view : γ → Repository}
  {parent : String → Option String}

theorem headSha (h : GitOk runProcess repo.repoDir view parent) (g : γ) :
    (repo.headSha runProcess).After g
      (fun sha g' => view g' = view g ∧ sha = (view g).head)
      fun _ g' => view g' = view g := by
  refine (h.revParse g).bind ?_ fun _ _ herror => herror
  rintro output g' ⟨hview, hname, rfl⟩
  have hparse : parseNonEmptyUtf8 (encodeUtf8 ((view g).head ++ "\n").toList)
      "git rev-parse HEAD" = .ok (view g).head := by
    simp only [parseNonEmptyUtf8, fromUtf8_encodeUtf8, trim_objectName hname]
    rw [if_neg (by simpa using hname.1)]
  rw [hparse]
  simp [hview]

theorem currentBranch (h : GitOk runProcess repo.repoDir view parent) (g : γ) :
    (repo.currentBranch runProcess).After g
      (fun _ g' => view g' = view g) fun _ g' => view g' = view g := by
  refine (h.showCurrent g).bind ?_ fun _ _ herror => herror
  intro output g' hview
  simp [hview]

theorem snapshot (h : GitOk runProcess repo.repoDir view parent) (g : γ) :
    (repo.snapshot runProcess).After g
      (fun snapshot g' => view g' = view g ∧ snapshot.sha = (view g).head)
      fun _ g' => view g' = view g := by
  refine (h.headSha g).bind ?_ fun _ _ herror => herror
  rintro sha g' ⟨hview, rfl⟩
  refine (h.currentBranch g').bind ?_ fun _ _ herror => herror.trans hview
  intro branch g'' hview'
  exact ⟨hview'.trans hview, rfl⟩

theorem addAll (h : GitOk runProcess repo.repoDir view parent) (g : γ) :
    (repo.addAll runProcess).After g
      (fun _ g' => view g' = view g) fun _ g' => view g' = view g :=
  (h.add g).bind (fun _ _ hview => hview) fun _ _ herror => herror

theorem commitAll (h : GitOk runProcess repo.repoDir view parent) (message : String) (g : γ) :
    (repo.commitAll runProcess message true).After g
      (fun sha g' => parent sha = some (view g).head ∧ view g' = (view g).commit sha)
      fun _ g' => view g' = view g ∨
        ∃ sha, parent sha = some (view g).head ∧ view g' = (view g).commit sha := by
  refine (h.commit message g).bind ?_ fun _ _ herror => herror
  rintro output g' ⟨sha, hparent, hview⟩
  refine (h.headSha g').mono ?_ fun _ g'' hview' => .inr ⟨sha, hparent, hview'.trans hview⟩
  rintro sha' g'' ⟨hview', rfl⟩
  rw [hview'.trans hview, hview]
  exact ⟨hparent, rfl⟩

theorem switchCreateOrReset (h : GitOk runProcess repo.repoDir view parent)
    (branch : String) {startPoint : String} {g : γ} (hknown : startPoint ∈ (view g).commits) :
    (repo.switchCreateOrReset runProcess branch startPoint).After g
      (fun _ g' => view g' = (view g).checkout branch startPoint)
      fun _ g' => view g' = view g ∨ view g' = (view g).checkout branch startPoint :=
  (h.checkout branch startPoint g hknown).bind (fun _ _ hview => hview) fun _ _ herror => herror

end GitOk

end ManInTheBox.Guest
