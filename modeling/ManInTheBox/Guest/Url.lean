import ManInTheBox.Library.ByteOffset
import ManInTheBox.Guest.Paths

/-! # The URLs of requests

A URL is split at the first `://` and at the first delimiter behind it. A fragment is looked
for at the second of these places only.
-/

namespace ManInTheBox.Guest

open Library

/-- `Scheme`, of which the guest tells two apart. -/
inductive Scheme
  | http
  | https
  | other (text : Text)
  deriving DecidableEq

namespace Scheme

def ofText (schemeText : Text) : Scheme :=
  if schemeText = "http".toList then .http
  else if schemeText = "https".toList then .https
  else .other schemeText

def text : Scheme → Text
  | .http => "http".toList
  | .https => "https".toList
  | .other text => text

@[simp] theorem text_ofText (schemeText : Text) : (ofText schemeText).text = schemeText := by
  unfold ofText
  split_ifs with hhttp hhttps
  · exact hhttp.symm
  · exact hhttps.symm
  · rfl

end Scheme

@[ext] structure ParsedUrl where
  scheme : Scheme
  authority : Text
  pathWithQuery : Text
  deriving DecidableEq

def schemeSeparator : Text := "://".toList

/-- `['/', '?', '#']` -/
def isDelimiter (c : Char) : Bool := c == '/' || c == '?' || c == '#'

inductive UrlError
  | notAbsolute
  | missingAuthority
  | fragment
  deriving DecidableEq

def UrlError.message (url : Text) (error : UrlError) : Text :=
  "url `".toList ++ url ++ match error with
    | .notAbsolute => "` must be absolute and include a scheme".toList
    | .missingAuthority => "` is missing an authority".toList
    | .fragment => "` must not include a fragment".toList

/-- The request path for what stands behind the authority. -/
def pathWithQuery (suffix : Text) : Except UrlError Text :=
  match suffix with
  | [] => .ok ['/']
  | c :: _ =>
    if c = '/' then .ok suffix
    else if c = '?' then .ok ('/' :: suffix)
    else .error .fragment

/-- The result for what stands behind `://`; there is none where a slice would panic. -/
def parseRemainder (schemeText remainder : Text) : Option (Except UrlError ParsedUrl) := do
  let scheme := Scheme.ofText schemeText
  if remainder = [] then
    return .error .missingAuthority
  let splitIndex := (findChar isDelimiter remainder).getD (byteLength remainder)
  let authority ← sliceTo splitIndex remainder
  if authority = [] then
    return .error .missingAuthority
  let suffix ← sliceFrom splitIndex remainder
  return (pathWithQuery suffix).map fun path => ⟨scheme, authority, path⟩

def parseUrl (url : Text) : Option (Except Text ParsedUrl) :=
  match splitOnce schemeSeparator url with
  | none => some (.error (UrlError.notAbsolute.message url))
  | some (schemeText, remainder) =>
    (parseRemainder schemeText remainder).map (Except.mapError (UrlError.message url))

/-! ## What a URL is made of -/

/-- A text without delimiters. -/
def Plain (text : Text) : Prop := ∀ c ∈ text, isDelimiter c = false

/-- What stands behind an authority: nothing, or a delimiter first. -/
def Delimited (suffix : Text) : Prop := ∀ c ∈ suffix.head?, isDelimiter c = true

theorem exists_authority (remainder : Text) :
    ∃ authority suffix, remainder = authority ++ suffix ∧ Plain authority ∧ Delimited suffix ∧
      (findChar isDelimiter remainder).getD (byteLength remainder) = byteLength authority := by
  cases h : findChar isDelimiter remainder with
  | none =>
    exact ⟨remainder, [], by simp, findChar_eq_none_iff.mp h, by simp [Delimited], rfl⟩
  | some n =>
    obtain ⟨before, c, after, rfl, hc, hbefore, rfl⟩ := findChar_eq_some_iff.mp h
    exact ⟨before, c :: after, rfl, hbefore, by simpa [Delimited] using hc, rfl⟩

/-- The authority ends where the first delimiter stands. -/
theorem authority_unique {authority suffix authority' suffix' : Text}
    (h : authority ++ suffix = authority' ++ suffix') (hplain : Plain authority)
    (hsuffix : Delimited suffix) (hplain' : Plain authority') (hsuffix' : Delimited suffix') :
    authority = authority' ∧ suffix = suffix' := by
  induction authority generalizing authority' with
  | nil =>
    cases authority' with
    | nil => exact ⟨rfl, h⟩
    | cons c authority' =>
      rw [List.nil_append] at h
      subst h
      have hdelimiter := hsuffix c rfl
      rw [hplain' c List.mem_cons_self] at hdelimiter
      cases hdelimiter
  | cons c authority ih =>
    cases authority' with
    | nil =>
      rw [List.nil_append] at h
      subst h
      have hdelimiter := hsuffix' c rfl
      rw [hplain c List.mem_cons_self] at hdelimiter
      cases hdelimiter
    | cons d authority' =>
      obtain ⟨rfl, hrest⟩ := List.cons.inj h
      obtain ⟨rfl, rfl⟩ := ih hrest (fun e he => hplain e (List.mem_cons_of_mem _ he))
        fun e he => hplain' e (List.mem_cons_of_mem _ he)
      exact ⟨rfl, rfl⟩

/-- The slices stand at the delimiter, so that nothing panics. -/
theorem parseRemainder_append (schemeText : Text) {authority suffix : Text}
    (hplain : Plain authority) (hsuffix : Delimited suffix) :
    parseRemainder schemeText (authority ++ suffix) =
      some (if authority = [] then .error .missingAuthority
        else (pathWithQuery suffix).map fun path => ⟨Scheme.ofText schemeText, authority, path⟩) := by
  obtain ⟨authority', suffix', hparts, hplain', hsuffix', hindex⟩ :=
    exists_authority (authority ++ suffix)
  obtain ⟨rfl, rfl⟩ := authority_unique hparts hplain hsuffix hplain' hsuffix'
  rw [parseRemainder]
  by_cases hnil : authority = []
  · subst hnil
    rw [if_pos rfl]
    by_cases hempty : suffix = []
    · rw [if_pos (by simp [hempty])]
      rfl
    · rw [if_neg (by simpa using hempty), hindex]
      simp only [sliceTo_append]
      rfl
  · rw [if_neg hnil, if_neg (by simp [hnil]), hindex]
    simp only [sliceTo_append, sliceFrom_append]
    simp [hnil]

/-- Every URL is taken or rejected. -/
theorem parseUrl_isSome (url : Text) : (parseUrl url).isSome = true := by
  unfold parseUrl
  split
  case h_1 => rfl
  case h_2 schemeText remainder _ =>
    obtain ⟨authority, suffix, rfl, hplain, hsuffix, -⟩ := exists_authority remainder
    rw [parseRemainder_append schemeText hplain hsuffix]
    rfl

theorem pathWithQuery_eq_ok_iff {suffix path : Text} :
    pathWithQuery suffix = .ok path ↔
      suffix = [] ∧ path = ['/'] ∨ suffix.head? = some '/' ∧ path = suffix ∨
        suffix.head? = some '?' ∧ path = '/' :: suffix := by
  cases suffix with
  | nil => simp [pathWithQuery, eq_comm]
  | cons c suffix =>
    by_cases hslash : c = '/'
    · simp [pathWithQuery, hslash, eq_comm]
    · by_cases hquery : c = '?'
      · simp [pathWithQuery, hquery, eq_comm]
      · simp [pathWithQuery, hslash, hquery]

/-- A URL is taken when it has an authority, and behind it nothing, a path or a query. -/
theorem parseUrl_eq_ok_iff {url : Text} {parsed : ParsedUrl} :
    parseUrl url = some (.ok parsed) ↔
      ∃ schemeText suffix,
        splitOnce schemeSeparator url = some (schemeText, parsed.authority ++ suffix) ∧
        parsed.authority ≠ [] ∧ Plain parsed.authority ∧ Delimited suffix ∧
        pathWithQuery suffix = .ok parsed.pathWithQuery ∧
        parsed.scheme = Scheme.ofText schemeText := by
  constructor
  · intro h
    unfold parseUrl at h
    split at h
    case h_1 => cases h
    case h_2 schemeText remainder hsplit =>
      obtain ⟨authority, suffix, rfl, hplain, hsuffix, -⟩ := exists_authority remainder
      rw [parseRemainder_append schemeText hplain hsuffix] at h
      by_cases hnil : authority = []
      · rw [if_pos hnil] at h
        cases h
      · rw [if_neg hnil] at h
        cases hpath : pathWithQuery suffix with
        | error e =>
          rw [hpath] at h
          cases h
        | ok path =>
          rw [hpath] at h
          obtain rfl := Except.ok.inj (Option.some.inj h)
          exact ⟨schemeText, suffix, hsplit, hnil, hplain, hsuffix, hpath, rfl⟩
  · rintro ⟨schemeText, suffix, hsplit, hnil, hplain, hsuffix, hpath, hscheme⟩
    rw [parseUrl, hsplit]
    simp only
    rw [parseRemainder_append schemeText hplain hsuffix, if_neg hnil, hpath, ← hscheme]
    rfl

/-! ## Fragments -/

/-- The parts of a URL, put together again, are the URL, and none of them has a fragment. -/
structure SplitsInto (url : Text) (parsed : ParsedUrl) : Prop where
  authority_nonempty : parsed.authority ≠ []
  authority_plain : ∀ c ∈ parsed.authority, c ≠ '/' ∧ c ≠ '?' ∧ c ≠ '#'
  rooted : parsed.pathWithQuery.head? = some '/'
  no_fragment : '#' ∉ parsed.pathWithQuery
  parts : ∃ suffix,
    url = parsed.scheme.text ++ "://".toList ++ parsed.authority ++ suffix ∧
      parsed.pathWithQuery =
        if suffix = [] then ['/'] else if suffix.head? = some '?' then '/' :: suffix else suffix

/-- There is a `#` behind the scheme and the authority. -/
def HasFragment (url : Text) : Prop :=
  ∃ schemeText authority suffix,
    splitOnce "://".toList url = some (schemeText, authority ++ suffix) ∧
      (∀ c ∈ authority, c ≠ '/' ∧ c ≠ '?' ∧ c ≠ '#') ∧ '#' ∈ suffix

/-- What is taken is split without loss, and what has a fragment is not taken. -/
structure HandledRight (url : Text) : Prop where
  splits : ∀ parsed, parseUrl url = some (.ok parsed) → SplitsInto url parsed
  rejects : HasFragment url → ∃ message, parseUrl url = some (.error message)

/-- A path or a query without a `#` in it. -/
def PathWithoutFragment (url : Text) : Prop :=
  ∀ schemeText authority suffix,
    splitOnce "://".toList url = some (schemeText, authority ++ suffix) → authority ≠ [] →
      (∀ c ∈ authority, c ≠ '/' ∧ c ≠ '?' ∧ c ≠ '#') →
        suffix.head? = some '/' ∨ suffix.head? = some '?' → '#' ∉ suffix

theorem plain_iff {text : Text} : Plain text ↔ ∀ c ∈ text, c ≠ '/' ∧ c ≠ '?' ∧ c ≠ '#' := by
  simp [Plain, isDelimiter, and_assoc]

theorem delimited_iff {suffix : Text} :
    Delimited suffix ↔ suffix = [] ∨ suffix.head? = some '/' ∨ suffix.head? = some '?' ∨
      suffix.head? = some '#' := by
  cases suffix with
  | nil => simp [Delimited]
  | cons c suffix => simp [Delimited, isDelimiter, or_assoc]

/-- The authority in front of a `#` can be taken up to the first delimiter. -/
theorem HasFragment.exists_delimited {url : Text} (h : HasFragment url) :
    ∃ schemeText authority suffix,
      splitOnce "://".toList url = some (schemeText, authority ++ suffix) ∧ Plain authority ∧
        Delimited suffix ∧ '#' ∈ suffix := by
  obtain ⟨schemeText, front, back, hsplit, hfront, hback⟩ := h
  obtain ⟨authority, suffix, hparts, hplain, hsuffix, -⟩ := exists_authority (front ++ back)
  rw [hparts] at hsplit
  refine ⟨schemeText, authority, suffix, hsplit, hplain, hsuffix, ?_⟩
  have hmem : '#' ∈ authority ++ suffix := hparts ▸ List.mem_append_right front hback
  rcases List.mem_append.mp hmem with hauthority | h
  · exact absurd rfl (plain_iff.mp hplain _ hauthority).2.2
  · exact h

/-- Apart from a fragment, what is taken is split as it should be. -/
theorem splitsInto_of_ok {url : Text} {parsed : ParsedUrl} (h : parseUrl url = some (.ok parsed))
    (hfragment : '#' ∉ parsed.pathWithQuery) : SplitsInto url parsed := by
  obtain ⟨schemeText, suffix, hsplit, hnil, hplain, hsuffix, hpath, hscheme⟩ :=
    parseUrl_eq_ok_iff.mp h
  refine ⟨hnil, plain_iff.mp hplain, ?_, hfragment, suffix, ?_, ?_⟩
  · rcases pathWithQuery_eq_ok_iff.mp hpath with ⟨-, hpath⟩ | ⟨hhead, hpath⟩ | ⟨-, hpath⟩
    · rw [hpath]
      rfl
    · rw [hpath, hhead]
    · rw [hpath]
      rfl
  · rw [hscheme, Scheme.text_ofText, List.append_assoc]
    exact (splitOnce_eq_some_iff.mp hsplit).1
  · rcases pathWithQuery_eq_ok_iff.mp hpath with ⟨hempty, hpath⟩ | ⟨hhead, hpath⟩ | ⟨hhead, hpath⟩
    · rw [hpath, if_pos hempty]
    · rw [hpath, if_neg (by rintro rfl; cases hhead), if_neg (by rw [hhead]; decide)]
    · rw [hpath, if_neg (by rintro rfl; cases hhead), if_pos hhead]

/-- The request path has the fragment of the URL in it, if there is one. -/
theorem mem_pathWithQuery_iff {suffix path : Text} (h : pathWithQuery suffix = .ok path) :
    '#' ∈ path ↔ '#' ∈ suffix := by
  rcases pathWithQuery_eq_ok_iff.mp h with ⟨rfl, rfl⟩ | ⟨-, rfl⟩ | ⟨-, rfl⟩
  · decide
  · rfl
  · simp

/-- URLs are handled right if no `#` stands in a path or a query; directly behind an authority
it is found. -/
theorem handledRight_iff (url : Text) : HandledRight url ↔ PathWithoutFragment url := by
  constructor
  · intro hright schemeText authority suffix hsplit hnil hplain hhead
    obtain ⟨path, hpath⟩ : ∃ path, pathWithQuery suffix = .ok path := by
      rcases hhead with hhead | hhead
      · exact ⟨_, pathWithQuery_eq_ok_iff.mpr (Or.inr (Or.inl ⟨hhead, rfl⟩))⟩
      · exact ⟨_, pathWithQuery_eq_ok_iff.mpr (Or.inr (Or.inr ⟨hhead, rfl⟩))⟩
    have hsuffix : Delimited suffix :=
      delimited_iff.mpr (Or.inr (hhead.elim Or.inl fun h => Or.inr (Or.inl h)))
    have hok : parseUrl url = some (.ok ⟨Scheme.ofText schemeText, authority, path⟩) :=
      parseUrl_eq_ok_iff.mpr
        ⟨schemeText, suffix, hsplit, hnil, plain_iff.mpr hplain, hsuffix, hpath, rfl⟩
    have hnot := (hright.splits _ hok).no_fragment
    rwa [mem_pathWithQuery_iff hpath] at hnot
  · intro hwithout
    have hnone : ∀ {parsed : ParsedUrl} {schemeText suffix : Text},
        splitOnce schemeSeparator url = some (schemeText, parsed.authority ++ suffix) →
        parsed.authority ≠ [] → Plain parsed.authority →
        pathWithQuery suffix = .ok parsed.pathWithQuery → '#' ∉ suffix := by
      intro parsed schemeText suffix hsplit hnil hplain hpath
      rcases pathWithQuery_eq_ok_iff.mp hpath with ⟨rfl, -⟩ | ⟨hhead, -⟩ | ⟨hhead, -⟩
      · exact List.not_mem_nil
      · exact hwithout _ _ suffix hsplit hnil (plain_iff.mp hplain) (Or.inl hhead)
      · exact hwithout _ _ suffix hsplit hnil (plain_iff.mp hplain) (Or.inr hhead)
    constructor
    · intro parsed hok
      obtain ⟨schemeText, suffix, hsplit, hnil, hplain, -, hpath, -⟩ := parseUrl_eq_ok_iff.mp hok
      apply splitsInto_of_ok hok
      rw [mem_pathWithQuery_iff hpath]
      exact hnone hsplit hnil hplain hpath
    · intro hfragment
      obtain ⟨schemeText, authority, suffix, hsplit, hplain, hsuffix, hmem⟩ :=
        hfragment.exists_delimited
      cases hresult : parseUrl url with
      | none =>
        have hsome := parseUrl_isSome url
        rw [hresult] at hsome
        cases hsome
      | some result =>
        cases result with
        | error message => exact ⟨message, rfl⟩
        | ok parsed =>
          obtain ⟨schemeText', suffix', hsplit', hnil, hplain', hsuffix', hpath, -⟩ :=
            parseUrl_eq_ok_iff.mp hresult
          have hparts := (Prod.mk.inj (Option.some.inj (hsplit.symm.trans hsplit'))).2
          obtain ⟨-, rfl⟩ := authority_unique hparts hplain hsuffix hplain' hsuffix'
          exact absurd hmem (hnone hsplit' hnil hplain' hpath)

/-- A fragment behind a path is taken for a part of it. -/
theorem not_handledRight_path : ¬ HandledRight "http://h/p#f".toList := by
  intro h
  have hok : parseUrl "http://h/p#f".toList =
      some (.ok ⟨.http, "h".toList, "/p#f".toList⟩) := by decide
  exact (h.splits _ hok).no_fragment (by decide)

end ManInTheBox.Guest
