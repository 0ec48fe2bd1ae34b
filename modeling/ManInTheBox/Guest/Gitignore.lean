import Mathlib.Data.List.DropRight
import ManInTheBox.Guest.Paths
import ManInTheBox.Library.Fallible
import ManInTheBox.Library.LastVerdict

/-! # The rules of `.gitignore` files

A file yields its rules line by line; the last rule that matches a path says whether it
is ignored. How a pattern matches a text is left to the glob library.
-/

namespace ManInTheBox.Guest

open Library

/-- `glob::MatchOptions`. -/
structure MatchOptions where
  caseSensitive : Bool
  requireLiteralSeparator : Bool
  requireLiteralLeadingDot : Bool

/-- `glob::Pattern`, with the texts of its errors. -/
class Glob (Pattern : Type) where
  new : Text → Except Text Pattern
  asStr : Pattern → Text
  matchesWith : Pattern → Text → MatchOptions → Bool

variable {Pattern : Type} [Glob Pattern]

def globMatchesPattern (pattern : Pattern) (text : Text) : Bool :=
  Glob.matchesWith pattern text
    { caseSensitive := true, requireLiteralSeparator := true, requireLiteralLeadingDot := false }

def matchesPathPattern (pattern : Pattern) (relativePath : Text) : Bool :=
  if '/' ∈ Glob.asStr pattern then globMatchesPattern pattern relativePath
  else globMatchesPattern pattern (basename relativePath)

structure GitignoreRule (Pattern : Type) where
  baseDir : Text
  pattern : Pattern
  negated : Bool
  directoryOnly : Bool
  anchored : Bool
  hasSlash : Bool

/-! ## Reading a file -/

/-- `strip_prefix` of a character, with whether it was there. -/
def stripStart (c : Char) : Text → Bool × Text
  | [] => (false, [])
  | c' :: rest => if c' = c then (true, rest) else (false, c' :: rest)

/-- `strip_suffix` of a character, with whether it was there. -/
def stripEnd (c : Char) (text : Text) : Bool × Text :=
  if text.getLast? = some c then (true, text.dropLast) else (false, text)

/-- The lines of a text, the first of which begins with `line`. -/
def linesAfter (line : Text) : Text → List Text
  | [] => if line = [] then [] else [line]
  | c :: rest =>
    if c = '\n' then (stripEnd '\r' line).2 :: linesAfter [] rest else linesAfter (line ++ [c]) rest

/-- `str::lines`. -/
def lines (text : Text) : List Text := linesAfter [] text

def invalidGitignorePattern (line baseDir error : Text) : Text :=
  "invalid `.gitignore` pattern `".toList ++ line ++ "` under `".toList ++ displayPath baseDir ++
    "`: ".toList ++ error

/-- A line of a `.gitignore` file, and the rule that it stands for. -/
def parseGitignoreLine (baseDir originalLine : Text) :
    Except Text (Option (GitignoreRule Pattern)) :=
  let line := originalLine.rdropWhile (· = '\r')
  if line = [] ∨ line.head? = some '#' then .ok none
  else
    let (negated, line) := stripStart '!' line
    if line = [] then .ok none
    else
      let (anchored, line) := stripStart '/' line
      if line = [] then .ok none
      else
        let (directoryOnly, line) := stripEnd '/' line
        if line = [] then .ok none
        else
          let normalizedPattern := line.map fun c => if c = '\\' then '/' else c
          match Glob.new normalizedPattern with
          | .error error => .error (invalidGitignorePattern line baseDir error)
          | .ok pattern => .ok (some
            { baseDir, pattern, negated, directoryOnly, anchored, hasSlash := '/' ∈ line })

/-- The rules that lines stand for are appended to those at hand. -/
def parseGitignoreLines (baseDir : Text) :
    List Text → List (GitignoreRule Pattern) → Except Text (List (GitignoreRule Pattern))
  | [], rules => .ok rules
  | line :: rest, rules => do
    let rule ← parseGitignoreLine baseDir line
    parseGitignoreLines baseDir rest (rules ++ rule.toList)

def parseGitignoreRules (contents baseDir : Text) (rules : List (GitignoreRule Pattern)) :
    Except Text (List (GitignoreRule Pattern)) :=
  parseGitignoreLines baseDir (lines contents) rules

theorem parseGitignoreLines_append (baseDir : Text) (rest : List Text)
    (rules : List (GitignoreRule Pattern)) :
    parseGitignoreLines baseDir rest rules =
      (parseGitignoreLines baseDir rest []).map (rules ++ ·) := by
  induction rest generalizing rules with
  | nil => simp [parseGitignoreLines, Except.map]
  | cons line rest ih =>
    rw [parseGitignoreLines, parseGitignoreLines]
    cases hrule : @parseGitignoreLine Pattern _ baseDir line with
    | error error => rfl
    | ok rule =>
      rw [ok_bind, ok_bind, ih (rules ++ rule.toList), ih ([] ++ rule.toList)]
      cases @parseGitignoreLines Pattern _ baseDir rest [] with
      | error error => rfl
      | ok rules' => simp [Except.map]

/-- Rules at hand do not matter for what a file says. -/
theorem parseGitignoreRules_append (contents baseDir : Text)
    (rules : List (GitignoreRule Pattern)) :
    parseGitignoreRules contents baseDir rules =
      (parseGitignoreRules contents baseDir []).map (rules ++ ·) :=
  parseGitignoreLines_append baseDir (lines contents) rules

/-! ## Judging a path -/

/-- The path as seen from the directory of a rule; none where the path is elsewhere. -/
def GitignoreRule.pathFromBase (rule : GitignoreRule Pattern) (relativePath : Text) : Option Text :=
  if rule.baseDir = [] then some relativePath
  else (rule.baseDir ++ ['/']).isPrefixOf? relativePath

/-- Whether a rule matches a path below its directory. -/
def GitignoreRule.matchesBelow (rule : GitignoreRule Pattern) (pathFromBase name : Text)
    (isDir : Bool) : Bool :=
  if rule.directoryOnly then
    (directoryPrefixes pathFromBase isDir).any fun directoryPath =>
      if rule.anchored || rule.hasSlash then globMatchesPattern rule.pattern directoryPath
      else globMatchesPattern rule.pattern (basename directoryPath)
  else if rule.anchored || rule.hasSlash then globMatchesPattern rule.pattern pathFromBase
  else globMatchesPattern rule.pattern name

/-- Whether a rule has a say on a path. -/
def GitignoreRule.applies (relativePath : Text) (isDir : Bool) (rule : GitignoreRule Pattern) :
    Bool :=
  match rule.pathFromBase relativePath with
  | none => false
  | some pathFromBase =>
    if pathFromBase = [] then false
    else rule.matchesBelow pathFromBase (basename relativePath) isDir

def pathIsIgnored (rules : List (GitignoreRule Pattern)) (relativePath : Text) (isDir : Bool) :
    Bool :=
  rules.foldl
    (fun ignored rule => if rule.applies relativePath isDir then !rule.negated else ignored) false

/-- The last rule that has a say decides. -/
theorem pathIsIgnored_eq (rules : List (GitignoreRule Pattern)) (relativePath : Text)
    (isDir : Bool) :
    pathIsIgnored rules relativePath isDir =
      lastVerdict (GitignoreRule.applies relativePath isDir) (fun rule => !rule.negated) false rules :=
  rfl

/-! ## Patterns of stars -/

/-- A pattern in which only stars have a meaning. -/
structure StarPattern where
  text : Text

/-- What can be left of a text after a star, which does not match a separator. -/
def afterStar : Text → List Text
  | [] => [[]]
  | c :: rest => (c :: rest) :: if c = '/' then [] else afterStar rest

def starMatches : Text → Text → Bool
  | [], text => text = []
  | c :: pattern, text =>
    if c = '*' then (afterStar text).any (starMatches pattern)
    else
      match text with
      | [] => false
      | c' :: text => c = c' && starMatches pattern text

/-- What the glob library does with such patterns, where separators are literal. -/
instance : Glob StarPattern where
  new text := .ok ⟨text⟩
  asStr pattern := pattern.text
  matchesWith pattern text _ := starMatches pattern.text text

example : starMatches "*.rs".toList "lib.rs".toList = true := by decide

end ManInTheBox.Guest
