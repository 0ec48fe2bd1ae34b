import ManInTheBox.Guest.GitRepo
import ManInTheBox.Host.Session
import ManInTheBox.Search.Selection

/-! # The maintainability policy

Each action measures the sources, commits them, reports the measure as a reward and lets the
search choose the commit from which the work goes on. What the policy is told from outside,
git apart, comes with the action.
-/

namespace ManInTheBox.Guest

open Library Search
open Host (Action Input Key)

/-- The operations on `f64` that measuring needs besides. -/
class FloatMeasure (ρ : Type) where
  sub : ρ → ρ → ρ
  max : ρ → ρ → ρ
  clamp : ρ → ρ → ρ → ρ
  log2 : ρ → ρ
  sqrt2 : ρ
  /-- A literal, as a fraction. -/
  decimal : ℕ → ℕ → ρ
  /-- `{:.2}`. -/
  fixed2 : ρ → String

inductive QueryError
  | unsupportedLanguage
  | invalidQuery
  | unknownTree
  | unknownQuery
  | internal

inductive ParseError
  | unsupportedLanguage
  | parseFailed
  | internal

structure Capture where
  name : String
  text : String

/-- What an action is told from outside: the queries it compiles, random bytes, the files it finds
and counts the lines of, their contents, trees and matches, and whether its report was taken. -/
structure Tools (ρ : Type) where
  queryCompile : String → String → Except QueryError ℕ
  randomBytes : List UInt8
  find : Except String (List String)
  countLines : Except String ℕ
  readText : String → Except String String
  parse : (path language source : String) → Except ParseError ℕ
  queryExec : (path : String) → (queryId treeId : ℕ) → (source : String) →
    Except QueryError (List (List Capture))
  reportReward : ρ → Except String Unit

def rustLanguage : String := "rust"

def cyclomaticQuery : String :=
"
[
  (if_expression)
  (match_expression)
  (for_expression)
  (while_expression)
  (loop_expression)
] @decision
"

def halsteadQuery : String :=
"
[
  (binary_expression)
  (unary_expression)
  (assignment_expression)
  (call_expression)
  (field_expression)
  (index_expression)
  (if_expression)
  (match_expression)
  (for_expression)
  (while_expression)
  (loop_expression)
  (return_expression)
  (break_expression)
  (continue_expression)
] @operator

[
  (identifier)
  (integer_literal)
  (float_literal)
  (char_literal)
  (string_literal)
] @operand
"

def mctsMaxDepth : ℕ := 32

structure BestRewardCommit (ρ : Type) where
  commit : String
  reward : ρ

structure SearchState (ρ : Type) where
  navigator : PendingTreeSearch ρ
  bestRewardCommit : Option (BestRewardCommit ρ)

structure PolicyState (ρ : Type) where
  sessionId : Option String
  createdBranchCount : ℕ
  search : Option (SearchState ρ)

structure Maintainability (ρ : Type) where
  actionIndex : ℕ
  cyclomaticQueryId : Option ℕ
  halsteadQueryId : Option ℕ
  state : PolicyState ρ

/-- The policy and the state git works on. -/
structure Workplace (ρ γ : Type) where
  policy : Maintainability ρ
  git : γ

abbrev Acting (ρ γ α : Type) := Command (Workplace ρ γ) Failure α

variable {ρ γ : Type}

/-- `Maintainability::default`. -/
def Maintainability.default : Maintainability ρ := ⟨0, none, none, ⟨none, 0, none⟩⟩

def saturatingSucc (n : ℕ) : ℕ := min (n + 1) (2 ^ 64 - 1)

/-! ## Measuring -/

def queryErrorString : QueryError → String
  | .unsupportedLanguage => "unsupported language"
  | .invalidQuery => "invalid query"
  | .unknownTree => "unknown tree"
  | .unknownQuery => "unknown query"
  | .internal => "internal query error"

def parseErrorString : ParseError → String
  | .unsupportedLanguage => "unsupported language"
  | .parseFailed => "parse failed"
  | .internal => "internal parse error"

/-- `map_err` with a text in front. -/
def describing {ε α : Type} (before : String) (describe : ε → String) : Except ε α → Except String α
  | .ok a => .ok a
  | .error e => .error (before ++ describe e)

def countLines (text : String) : ℕ :=
  if text.isEmpty then 0
  else
    let newlineCount := text.toList.count '\n'
    if text.toList.getLast? = some '\n' then newlineCount else newlineCount + 1

section Measuring

variable [F64 ρ] [FloatMath ρ] [FloatMeasure ρ]

open FloatMath FloatMeasure

def computeMaintainabilityIndex (halsteadVolume cyclomaticComplexity loc : ρ) : ρ :=
  let safeVolume := max halsteadVolume (decimal 1 1)
  let safeLoc := max loc (decimal 1 1)
  let raw := sub (sub (sub (decimal 171 1) (mul (decimal 52 10) (ln safeVolume)))
    (mul (decimal 23 100) cyclomaticComplexity)) (mul (decimal 162 10) (ln safeLoc))
  div (mul raw (decimal 100 1)) (decimal 171 1)

/-- The operators and operands counted so far, and the different texts among them. -/
structure Halstead where
  operatorsTotal : ℕ
  operandsTotal : ℕ
  distinctOperators : Finset String
  distinctOperands : Finset String

def Halstead.start : Halstead := ⟨0, 0, ∅, ∅⟩

def Halstead.count (this : Halstead) (capture : Capture) : Halstead :=
  if capture.name = "operator" then
    { this with
      operatorsTotal := saturatingSucc this.operatorsTotal
      distinctOperators := insert capture.text this.distinctOperators }
  else if capture.name = "operand" then
    { this with
      operandsTotal := saturatingSucc this.operandsTotal
      distinctOperands := insert capture.text this.distinctOperands }
  else this

def Halstead.volume (this : Halstead) : ρ :=
  let n1 : ρ := ofU64 this.distinctOperators.card
  let n2 : ρ := ofU64 this.distinctOperands.card
  let nTotal : ρ := F64.add (ofU64 this.operatorsTotal) (ofU64 this.operandsTotal)
  let vocabulary := max (F64.add n1 n2) (decimal 2 1)
  mul nTotal (log2 vocabulary)

/-- The sums over the files; those that are only logged are left out. -/
structure Totals (ρ : Type) where
  analyzedFiles : ℕ
  miSum : ρ

/-- One round of the loop over the files. -/
def analyzeFile (tools : Tools ρ) (cyclomaticQueryId halsteadQueryId : ℕ) (totals : Totals ρ)
    (path : String) : Except String (Totals ρ) := do
  let source ← tools.readText path
  let fileLoc : ρ := ofU64 (countLines source)
  let treeId ← describing ("failed parsing `" ++ path ++ "`: ") parseErrorString
    (tools.parse path rustLanguage source)
  let cyclomaticMatches ← describing ("failed running cyclomatic query for `" ++ path ++ "`: ")
    queryErrorString (tools.queryExec path cyclomaticQueryId treeId source)
  let halsteadMatches ← describing ("failed running halstead query for `" ++ path ++ "`: ")
    queryErrorString (tools.queryExec path halsteadQueryId treeId source)
  let cyclomaticComplexity := F64.add (decimal 1 1) (ofU64 cyclomaticMatches.length)
  let halstead := halsteadMatches.flatten.foldl Halstead.count Halstead.start
  let fileMi := computeMaintainabilityIndex halstead.volume cyclomaticComplexity fileLoc
  return ⟨saturatingSucc totals.analyzedFiles, F64.add totals.miSum fileMi⟩

/-- The maintainability index and the reward; without files they are the best. -/
def measure (tools : Tools ρ) (cyclomaticQueryId halsteadQueryId : ℕ) (files : List String) :
    Except String (ρ × ρ) :=
  if files.isEmpty then .ok (decimal 100 1, decimal 1 1)
  else do
    let totals ← files.foldlM (analyzeFile tools cyclomaticQueryId halsteadQueryId) ⟨0, F64.zero⟩
    let filesCount : ρ := ofU64 (Max.max totals.analyzedFiles 1)
    let mi := div totals.miSum filesCount
    return (mi, clamp (div mi (decimal 100 1)) (decimal 0 1) (decimal 1 1))

def normalizeReward (reward : ρ) : ρ :=
  if F64.isFinite reward then clamp reward (decimal 0 1) (decimal 1 1) else decimal 0 1

/-- `MctsConfig::default`. -/
def MctsConfig.default : MctsConfig ρ := ⟨sqrt2, decimal 15 10, decimal 5 10⟩

end Measuring

/-! ## Acting -/

def modifyPolicy (f : Maintainability ρ → Maintainability ρ) : Acting ρ γ Unit :=
  modify fun w => { w with policy := f w.policy }

/-- `?` on a result from outside. -/
def told {α : Type} : Except String α → Acting ρ γ α
  | .ok a => return a
  | .error message => throw (Failure.error message)

/-- A command of git. -/
def onGit {α : Type} (m : Command γ String α) : Acting ρ γ α :=
  Command.focus Workplace.git (fun git w => { w with git }) Failure.error m

/-- One half of `ensure_queries`: a query that has not been compiled yet is compiled. -/
def ensureQuery (tools : Tools ρ) (kind query : String)
    (record : ℕ → Maintainability ρ → Maintainability ρ) : Option ℕ → Acting ρ γ Unit
  | some _ => return ()
  | none => do
    let id ← told (describing ("failed compiling " ++ kind ++ " query: ") queryErrorString
      (tools.queryCompile rustLanguage query))
    modifyPolicy (record id)

def ensureQueries (tools : Tools ρ) : Acting ρ γ (ℕ × ℕ) := do
  ensureQuery tools "cyclomatic" cyclomaticQuery
    (fun id policy => { policy with cyclomaticQueryId := some id })
    (← get).policy.cyclomaticQueryId
  ensureQuery tools "halstead" halsteadQuery
    (fun id policy => { policy with halsteadQueryId := some id })
    (← get).policy.halsteadQueryId
  let policy := (← get).policy
  match policy.cyclomaticQueryId, policy.halsteadQueryId with
  | some cyclomaticQueryId, some halsteadQueryId => return (cyclomaticQueryId, halsteadQueryId)
  | _, _ => throw (.error "query IDs were not initialized")

def alphanumeric : List Char :=
  "0123456789ABCDEFGHIJKLMNOPQRSTUVWXYZabcdefghijklmnopqrstuvwxyz".toList

def generateSessionId (random : List UInt8) : String :=
  String.ofList (random.map fun byte => alphanumeric.getD (byte.toNat % 62) '0')

def ensureSessionIdRecorded (tools : Tools ρ) : Acting ρ γ Unit :=
  modifyPolicy fun policy =>
    match policy.state.sessionId with
    | some _ => policy
    | none =>
      { policy with
        state := { policy.state with sessionId := some (generateSessionId tools.randomBytes) } }

def gitRepo : GitRepo := ⟨"."⟩

section

variable [F64 ρ] [FloatMath ρ] [FloatMeasure ρ] (runProcess : RunProcess γ)

def putSearchState (search : SearchState ρ) : Acting ρ γ Unit :=
  modifyPolicy fun policy => { policy with state := { policy.state with search := some search } }

def ensureSearchStateRecorded : Acting ρ γ Unit := do
  match (← get).policy.state.search with
  | some _ => return ()
  | none =>
    let snapshot ← onGit (gitRepo.snapshot runProcess)
    putSearchState ⟨.withTree (.fresh snapshot.sha MctsConfig.default none), none⟩

/-- `search_state_mut`. -/
def searchState : Acting ρ γ (SearchState ρ) := do
  match (← get).policy.state.search with
  | some search => return search
  | none => throw (.error "missing search state")

def branchName (sessionId : String) (count : ℕ) : String :=
  "mitb/maintainability-" ++ sessionId ++ "-" ++ toString count

def nextSearchBranchName : Acting ρ γ String := do
  match (← get).policy.state.sessionId with
  | none => throw (.error "missing session id for branch selection")
  | some sessionId =>
    modifyPolicy fun policy =>
      { policy with
        state := { policy.state with
          createdBranchCount := saturatingSucc policy.state.createdBranchCount } }
    return branchName sessionId (← get).policy.state.createdBranchCount

def recordBestRewardCommit (commit : String) (reward : ρ) : Acting ρ γ (BestRewardCommit ρ) := do
  let search ← searchState
  let best :=
    match search.bestRewardCommit with
    | some best => if F64.lt best.reward reward then ⟨commit, reward⟩ else best
    | none => ⟨commit, reward⟩
  putSearchState { search with bestRewardCommit := some best }
  return best

def commitIterationSnapshot (mi : ρ) : Acting ρ γ GitSnapshot := do
  onGit (gitRepo.addAll runProcess)
  let message := "maintainability iteration " ++ toString (← get).policy.actionIndex ++ " mi " ++
    FloatMeasure.fixed2 mi
  let sha ← onGit (gitRepo.commitAll runProcess message true)
  let branch ← onGit (gitRepo.currentBranch runProcess)
  return ⟨sha, branch⟩

def checkoutSelectedCommit (commit : String) : Acting ρ γ String := do
  let branch ← nextSearchBranchName
  onGit (gitRepo.switchCreateOrReset runProcess branch commit)
  return branch

/-- `backpropagate_and_select` on the search of the policy. -/
def backpropagateAndSelect (currentKey : String) (reward : ρ) : Acting ρ γ SelectionStep := do
  let search ← searchState
  let (navigator, result) :=
    search.navigator.backpropagateAndSelect currentKey reward mctsMaxDepth
  putSearchState { search with navigator }
  liftExcept result

def navigateRewardLandscape (reward : ρ) (snapshot : GitSnapshot) : Acting ρ γ Unit := do
  let reward := normalizeReward reward
  let step ← backpropagateAndSelect snapshot.sha reward
  let _ ← recordBestRewardCommit snapshot.sha reward
  let _ ← checkoutSelectedCommit runProcess step.selectedKey
  return ()

/-- `prompt!`. -/
def prompt (message : String) : Action := .perturb [.text message, .key .enter]

/-- `Policy::act`, without what it logs. -/
def act (tools : Tools ρ) : Acting ρ γ Action := do
  modifyPolicy fun policy => { policy with actionIndex := saturatingSucc policy.actionIndex }
  let (cyclomaticQueryId, halsteadQueryId) ← ensureQueries tools
  ensureSessionIdRecorded tools
  ensureSearchStateRecorded runProcess
  let files ← told tools.find
  let _ ← told tools.countLines
  let (mi, reward) ← told (measure tools cyclomaticQueryId halsteadQueryId files)
  let snapshot ← commitIterationSnapshot runProcess mi
  told (tools.reportReward reward)
  navigateRewardLandscape runProcess reward snapshot
  let shown := if files.isEmpty then "100.00" else FloatMeasure.fixed2 mi
  return prompt ("The maintainability index of this application is currently " ++ shown ++
    ". Refactor to improve the maintainability index.")

/-! ## A session -/

/-- The workplace of a policy, and the failure of its last action: the host polls no more then. -/
structure PolicySession (ρ γ : Type) where
  workplace : Workplace ρ γ
  failed : Option Failure

inductive PolicyStep (ρ γ : Type)
  | act (tools : Tools ρ)
  /-- Others work on the repository between two actions. -/
  | work (git : γ)

def PolicySession.step (this : PolicySession ρ γ) :
    PolicyStep ρ γ → Option (PolicySession ρ γ × Option Action)
  | .act tools =>
    match this.failed, (act runProcess tools).outcome this.workplace with
    | some _, _ => none
    | none, (.ok action, workplace) => some (⟨workplace, none⟩, some action)
    | none, (.error failure, workplace) => some (⟨workplace, some failure⟩, none)
  | .work git =>
    match this.failed with
    | some _ => none
    | none => some (⟨{ this.workplace with git }, none⟩, none)

abbrev PolicyTransition (ρ γ : Type) :=
  Transition (PolicySession ρ γ) (PolicyStep ρ γ) (Option Action)

abbrev PolicyRun (git : γ) :=
  Run (PolicySession.step runProcess) ⟨⟨(Maintainability.default : Maintainability ρ), git⟩, none⟩

end

end ManInTheBox.Guest
