import Mathlib.Data.List.Infix
import TandemAgents.EventLog
import TandemAgents.FrontMatter
import TandemAgents.LinearIssues

/-!
# The repository a Linear issue is for

The body of an issue may name repositories. They are cut out of its lines and compared with
the configured ones through their aliases: the whole reference, its last path component, and
its last two. An issue none of whose references shares an alias with the configuration is
blocked. What is compared in the end is the last component: the owner before it decides nothing.
-/
namespace RepoGuard

open PythonText JsonData LinearIssues
open FrontMatter (stripped)
open EventLog (splitlines)

set_option maxRecDepth 20000

/-- What the program takes from the language beside `Runtime`: `lower` on ASCII, and the hosts
`urlsplit` refuses. -/
structure Runtime extends PullRequests.Runtime where
  lower_ascii : ∀ s : String, (∀ c ∈ s.toList, c.toNat < 128) → lower s = String.ofList (s.toList.map asciiLower)
  isWord : Char → Bool
  badNetloc : List Char → Bool
  badNetloc_ascii : ∀ netloc : List Char, (∀ c ∈ netloc, c.toNat < 128 ∧ c ≠ '[' ∧ c ≠ ']') → badNetloc netloc = false

/-! ## Cutting the hints out of the body -/

def backtick : Char := Char.ofNat 96

/-- `re.findall` of what stands between two backticks, with what was read since the last one. -/
def quotedSpans : Option (List Char) → List Char → List (List Char)
  | _, [] => []
  | none, c :: cs => quotedSpans (if c = backtick then some [] else none) cs
  | some span, c :: cs =>
    if c = backtick then (if span = [] then quotedSpans (some []) cs else span :: quotedSpans none cs)
    else quotedSpans (some (span ++ [c])) cs

def ticksOff (text : List Char) : List Char := ((text.dropWhile (· = backtick)).reverse.dropWhile (· = backtick)).reverse

def nonempty (texts : List (List Char)) : List (List Char) := texts.filter fun text => decide (text ≠ [])

/-- The rest begins with such a character. -/
def startsWord (isWord : Char → Bool) (rest : List Char) : Bool := rest.head?.any isWord

section
variable (py : Runtime)

/-- The pieces between commas, semicolons and the word `and`; the flag says that a word character
was read last. -/
def cutList : Bool → List Char → List Char → List (List Char)
  | _, piece, [] => [piece]
  | inWord, piece, 'a' :: 'n' :: 'd' :: rest =>
    if !inWord && !startsWord py.isWord rest then piece :: cutList true [] rest
    else cutList (py.isWord 'a') (piece ++ ['a']) ('n' :: 'd' :: rest)
  | _, piece, c :: rest =>
    if c = ',' ∨ c = ';' then piece :: cutList false [] rest else cutList (py.isWord c) (piece ++ [c]) rest

/-- A text without its list marker. -/
def markerOff (text : List Char) : List Char :=
  let digits := text.takeWhile py.isDigit
  match text with
  | [] => []
  | c :: rest =>
    if (c = '-' ∨ c = '*') ∧ startsWord isSpace rest then stripped rest
    else
      match text.drop digits.length with
      | d :: behind => if digits ≠ [] ∧ (d = '.' ∨ d = ')') ∧ startsWord isSpace behind then stripped behind else text
      | [] => text

/-- `_split_repo_hint_values`. -/
def splitRepoHintValues (value : List Char) : List (List Char) :=
  let text := stripped value
  let quoted := nonempty ((quotedSpans none text).map stripped)
  if quoted ≠ [] then quoted
  else nonempty ((cutList py false [] (markerOff py text)).map fun part => stripped (ticksOff (stripped part)))

/-- `(.+?)\s*#*\s*$`: the shortest beginning behind which only a closing sequence stands. -/
def headingGroup (group : List Char) : List Char → List Char
  | [] => group
  | c :: rest =>
    if group ≠ [] ∧ (((c :: rest).dropWhile isSpace).dropWhile (· = '#')).all isSpace then group
    else headingGroup (group ++ [c]) rest

/-- The key of a heading line. -/
def headingKey (line : List Char) : Option String :=
  let marks := line.takeWhile (· = '#')
  let rest := line.drop marks.length
  if 1 ≤ marks.length ∧ marks.length ≤ 6 ∧ startsWord isSpace rest ∧ stripped rest ≠ [] then
    some (normalizeLinearKey py.toRuntime (String.ofList (headingGroup [] (rest.dropWhile isSpace))))
  else none

/-- `re.IGNORECASE` for the letters of the words below. -/
def matchesLetter (c letter : Char) : Bool :=
  decide (asciiLower c = letter) || (decide (letter = 'i') && decide (c.toNat = 0x130 ∨ c.toNat = 0x131)) ||
    (decide (letter = 's') && decide (c.toNat = 0x17f))

def startsWithWord (word line : List Char) : Bool :=
  decide (word.length ≤ line.length) && (word.zip line).all fun p => matchesLetter p.2 p.1

/-- The text behind `repo:`, `repos:`, `repositorie:` or `repositories:`. -/
def inlineValue (line : List Char) : Option (List Char) :=
  ["repo".toList, "repos".toList, "repositorie".toList, "repositories".toList].findSome? fun word =>
    match (line.drop word.length).dropWhile isSpace with
    | ':' :: rest => if startsWithWord word line ∧ rest.dropWhile isSpace ≠ [] then some (rest.dropWhile isSpace) else none
    | _ => none

def isAsciiLetter (c : Char) : Bool := isAsciiAlnum c && !(48 ≤ c.toNat && c.toNat ≤ 57)

/-- `[A-Za-z][A-Za-z0-9 /_-]{1,80}:\s*$` -/
def endsSection (line : List Char) : Bool :=
  match line with
  | [] => false
  | c :: rest =>
    let label := rest.takeWhile fun c => isAsciiAlnum c || c = ' ' || c = '/' || c = '_' || c = '-'
    isAsciiLetter c && decide (1 ≤ label.length ∧ label.length ≤ 80) &&
      (match rest.drop label.length with
      | ':' :: behind => behind.all isSpace
      | _ => false)

def sectionKeys : List String := ["repo", "repos", "repository", "repositories"]

/-- The loop over the lines, with whether a repository section is open. -/
def hintsFrom : Bool → List (List Char) → List (List Char)
  | _, [] => []
  | inSection, raw :: rest =>
    let line := stripped raw
    if line = [] then hintsFrom inSection rest
    else
      match headingKey py line with
      | some key => hintsFrom (decide (key ∈ sectionKeys)) rest
      | none =>
        match inlineValue line with
        | some value => splitRepoHintValues py value ++ hintsFrom inSection rest
        | none =>
          if inSection then
            if endsSection line then hintsFrom false rest else splitRepoHintValues py line ++ hintsFrom true rest
          else hintsFrom false rest

/-- `_linear_issue_repo_hints`. -/
def issueRepoHints (issue : Issue) : List (List Char) := (hintsFrom py false (splitlines (issueBody issue).toList)).eraseDups

end

/-! ## Aliases -/

def gitOff (text : List Char) : List Char := if ".git".toList <:+ text then text.take (text.length - 4) else text

def slashesOff (text : List Char) : List Char := (text.reverse.dropWhile (· = '/')).reverse

/-- `strip("/")`. -/
def slashesAround (text : List Char) : List Char := slashesOff (text.dropWhile (· = '/'))

/-- `uses_params`. -/
def usesParams : List String :=
  ["", "ftp", "hdl", "prospero", "http", "https", "shttp", "rtsp", "rtsps", "rtspu", "sip", "sips", "mms", "sftp", "tel"]

def isScheme (scheme : List Char) : Bool :=
  (scheme.head?.any isAsciiLetter) && scheme.all fun c => isAsciiAlnum c || c = '+' || c = '-' || c = '.'

/-- The last segment up to its first semicolon. -/
def paramsOff (path : List Char) : List Char :=
  let segment := (path.reverse.takeWhile (· ≠ '/')).reverse
  path.take (path.length - segment.length) ++ segment.takeWhile (· ≠ ';')

/-- The path of a URL behind its scheme, unless the host is refused. -/
def pathBehind (badNetloc : List Char → Bool) (scheme : List Char) (rest : List Char) : Option (List Char) :=
  let isEnd : Char → Bool := fun c => c = '/' || c = '?' || c = '#'
  let hosted := "//".toList.isPrefixOf rest
  let netloc := if hosted then (rest.drop 2).takeWhile fun c => !isEnd c else []
  let behind := if hosted then (rest.drop 2).dropWhile fun c => !isEnd c else rest
  let path := (behind.takeWhile (· ≠ '#')).takeWhile (· ≠ '?')
  if badNetloc netloc then none
  else some (if String.ofList (scheme.map asciiLower) ∈ usesParams then paramsOff path else path)

/-- `urlparse(url).path`, or none where it raises. -/
def urlPath (badNetloc : List Char → Bool) (url : List Char) : Option (List Char) :=
  let text := (url.dropWhile fun c => decide (c.toNat ≤ 32)).filter fun c => decide (c ∉ ['\t', '\r', '\n'])
  let scheme := text.takeWhile (· ≠ ':')
  if ':' ∈ text ∧ isScheme scheme then pathBehind badNetloc scheme (text.drop (scheme.length + 1)) else pathBehind badNetloc [] text

/-- The text behind the first `://`. -/
def behindScheme : List Char → List Char
  | [] => []
  | c :: rest => if "://".toList.isPrefixOf (c :: rest) then rest.drop 2 else behindScheme rest

/-- The path components of a text that are not empty. -/
def components (text : List Char) : List (List Char) := nonempty (text.splitOn '/')

section
variable (py : Runtime)

/-- The text of a reference, as it is compared. -/
def normalized (value : List Char) : List Char :=
  let bare := (ticksOff (stripped value)).map fun c => if c = '\\' then '/' else c
  slashesOff (gitOff (py.lower (String.ofList bare)).toList)

/-- Where the path components are read from. -/
def referencePath (text : List Char) : List Char :=
  let path :=
    if "://".toList <:+: text then ((urlPath py.badNetloc text).map slashesAround).getD (behindScheme text)
    else if ':' ∈ text ∧ '@' ∈ text then slashesAround ((text.dropWhile (· ≠ ':')).drop 1)
    else text
  slashesOff (gitOff path)

/-- The last path component. -/
def lastComponent (text : List Char) : Option (List Char) := (components (referencePath py text)).getLast?

/-- The last two, unless the text is an absolute path. -/
def lastTwo (text : List Char) : Option (List Char) :=
  match (components (referencePath py text)).reverse with
  | name :: owner :: _ => if text.head? = some '/' then none else some (owner ++ '/' :: name)
  | _ => none

/-- `_repo_reference_aliases`. -/
def repoReferenceAliases (value : List Char) : List (List Char) :=
  let text := normalized py value
  nonempty (text :: (lastComponent py text).toList ++ (lastTwo py text).toList)

end

/-! ## The guard -/

/-- What the guard reads of the configuration: `repository.slug`, `repository.path`,
`repository.clone_url`, `task_source.repo`, `repository_path()` and the payload. -/
structure Config where
  slug : List Char
  path : List Char
  cloneUrl : List Char
  repo : List Char
  repositoryPath : List Char
  payload : Dict

def Config.references (cfg : Config) : List (List Char) := [cfg.slug, cfg.path, cfg.cloneUrl, cfg.repo, cfg.repositoryPath]

section
variable (py : Runtime)

/-- `_configured_repo_aliases`. -/
def configuredRepoAliases (cfg : Config) : List (List Char) := cfg.references.flatMap (repoReferenceAliases py)

/-- `_repo_hints_match_config`. -/
def repoHintsMatchConfig (cfg : Config) (hints : List (List Char)) : Bool :=
  hints.any fun hint => (repoReferenceAliases py hint).any fun a => decide (a ∈ configuredRepoAliases py cfg)

/-- `_truthy_config`. -/
def truthyConfig : Json → Bool
  | .bool b => b
  | .int n => decide (n ≠ 0)
  | .float text => decide (text ≠ "0.0" ∧ text ≠ "-0.0")
  | v => decide (py.lower (strip (py.text v)) ∈ ["1", "true", "yes", "y", "on"])

/-- `_linear_repo_routing_policy`. -/
def repoRoutingPolicy (cfg : Config) : Dict := ((cfg.payload.get "repo_routing").asDict).getD cfg.payload

/-- `_linear_requires_explicit_repo_hint`. -/
def requiresExplicitRepoHint (cfg : Config) : Bool :=
  ["require_explicit_repo_hint", "require_explicit_issue_repo", "require_repo_hint"].any fun key =>
    truthyConfig py ((repoRoutingPolicy cfg).get key)

/-- `contract_completeness` of a task. -/
structure Completeness where
  ok : Bool
  issues : List String
  blockerKind : String := ""
  blockerMessage : String := ""

/-- `task_contract_completeness`, from the codes of what is missing. -/
def taskContractCompleteness (issueCodes : List String) : Completeness :=
  if issueCodes = [] then ⟨true, [], "", ""⟩
  else ⟨false, issueCodes, "contract_incomplete", "Task contract is incomplete: " ++ commaJoin issueCodes⟩

def strippedIssues (issues : List String) : List String := (issues.map strip).filter fun text => decide (text ≠ "")

/-- `_contract_with_blocker`. -/
def contractWithBlocker (current : Completeness) (kind message : String) : Completeness :=
  let issues := strippedIssues current.issues
  ⟨false, if message ∈ issues then issues else issues ++ [message], kind, message⟩

/-- `_merge_contract_completeness`. -/
def mergeContractCompleteness (current previous : Completeness) : Completeness :=
  if previous.ok then current
  else
    let texts := previous.issues.foldl (fun texts item =>
      if strip item ≠ "" ∧ strip item ∉ texts then texts ++ [strip item] else texts) (strippedIssues current.issues)
    ⟨false, texts, orElse previous.blockerKind current.blockerKind, orElse previous.blockerMessage current.blockerMessage⟩

def missingMessage : String :=
  "Linear issue is missing an explicit Repo/Repos section, but this task source " ++
    "requires repo hints before ACA can safely run a cross-repo project item."

def configuredText (cfg : Config) : String :=
  strip (orElse (orElse (orElse (String.ofList cfg.slug) (String.ofList cfg.path)) (String.ofList cfg.cloneUrl)) "<unset>")

def mismatchMessage (cfg : Config) (hints : List (List Char)) : String :=
  "Linear issue repo hint does not match the configured ACA repo binding. " ++
    ("Configured repo: " ++ configuredText cfg ++ ". Issue repo hint(s): " ++ commaJoin (hints.map String.ofList) ++ ".")

/-- `_linear_apply_repo_routing_guard`, on the contract the task has so far. -/
def applyRepoRoutingGuard (cfg : Config) (issue : Issue) (current : Completeness) : Completeness :=
  let hints := issueRepoHints py issue
  if hints = [] ∧ requiresExplicitRepoHint py cfg then contractWithBlocker current "repo_hint_required" missingMessage
  else if hints ≠ [] ∧ repoHintsMatchConfig py cfg hints = false then
    contractWithBlocker current "repo_binding_mismatch" (mismatchMessage cfg hints)
  else current

def routingBlockers : List String := ["repo_hint_required", "repo_binding_mismatch"]

/-- `_linear_contract_hard_blocker`. -/
def contractHardBlocker (contract : Completeness) : String :=
  if contract.blockerKind ∈ routingBlockers then strip contract.blockerMessage else ""

/-- What is missing in the contract of an issue's task, when it is first built and when it is built
again for the launch. -/
structure IssueCodes where
  first : Issue → List String
  again : Issue → List String

/-- The contract of `_linear_issue_to_task`. -/
def issueContract (codes : IssueCodes) (cfg : Config) (issue : Issue) : Completeness :=
  applyRepoRoutingGuard py cfg issue (taskContractCompleteness (codes.first issue))

/-- The contract of the task in `_task_from_linear`, with its dependencies looked up. -/
def launchContract (codes : IssueCodes) (cfg : Config) (issue : Issue) : Completeness :=
  mergeContractCompleteness (taskContractCompleteness (codes.again issue)) (issueContract py codes cfg issue)

/-- The end of `_task_from_linear`: the issue is run, or the blocker is raised. -/
def launch (codes : IssueCodes) (cfg : Config) (issue : Issue) : Except String Issue :=
  let hardBlocker := contractHardBlocker (launchContract py codes cfg issue)
  if hardBlocker ≠ "" then .error hardBlocker else .ok issue

end

/-! ## Spellings of a repository -/

def plainChar (c : Char) : Bool := isAsciiAlnum c || c = '.' || c = '-' || c = '_'

/-- The name of an owner or of a repository. -/
structure Name where
  text : List Char
  plain : ∀ c ∈ text, plainChar c = true
  ne : text ≠ []
  notGit : ¬ ".git".toList <:+ text.map asciiLower

def lowered (text : List Char) : List Char := text.map asciiLower

/-- What stands before the owner: nothing, a scheme and a host, or a login. -/
inductive Form where
  | short
  | url (scheme netloc : List Char) (hscheme : isScheme scheme = true)
      (hnetloc : ∀ c ∈ netloc, plainChar c = true ∨ c = '@' ∨ c = ':')
  | scp (login : List Char) (hlogin : ∀ c ∈ login, plainChar c = true ∨ c = '@') (hat : '@' ∈ login)

def Form.front : Form → List Char
  | short => []
  | url scheme netloc _ _ => scheme ++ ("://".toList ++ (netloc ++ ['/']))
  | scp login _ _ => login ++ [':']

/-- A reference with its owner. -/
structure Qualified where
  form : Form
  owner : Name
  name : Name
  git : Bool

def Qualified.text (q : Qualified) : List Char :=
  q.form.front ++ (q.owner.text ++ '/' :: (q.name.text ++ if q.git then ".git".toList else []))

section
variable (py : Runtime)

/-- The name is the last path component of a configured reference. -/
def IsConfigured (cfg : Config) (name : Name) : Prop :=
  ∃ v ∈ cfg.references, lastComponent py (normalized py v) = some (lowered name.text)

/-- A hint for the repository with this owner and name: qualified, by its name alone, or like a
configured reference. -/
inductive Denotes (cfg : Config) (owner name : Name) : List Char → Prop
  | qualified (q : Qualified) (howner : lowered q.owner.text = lowered owner.text)
      (hname : lowered q.name.text = lowered name.text) : Denotes cfg owner name q.text
  | bare (other : Name) (hname : lowered other.text = lowered name.text) : Denotes cfg owner name other.text
  | reference (v : List Char) (hv : v ∈ cfg.references) (hne : normalized py v ≠ []) : Denotes cfg owner name v

/-- The task carries the blocker, and is not run. -/
def Blocked (codes : IssueCodes) (cfg : Config) (issue : Issue) (kind : String) : Prop :=
  (issueContract py codes cfg issue).blockerKind = kind ∧ ∃ text, launch py codes cfg issue = .error text

/-- The guard leaves the task as it is, and nothing else of it stops the run. -/
def Passed (codes : IssueCodes) (cfg : Config) (issue : Issue) : Prop :=
  issueContract py codes cfg issue = taskContractCompleteness (codes.first issue) ∧ launch py codes cfg issue = .ok issue

end

/-! ## Characters -/

theorem plainChar_iff {c : Char} : plainChar c = true ↔ isAsciiAlnum c = true ∨ c = '.' ∨ c = '-' ∨ c = '_' := by
  simp only [plainChar, Bool.or_eq_true, decide_eq_true_eq, or_assoc]

theorem alnum_cases {c : Char} (h : isAsciiAlnum c = true) :
    (48 ≤ c.toNat ∧ c.toNat ≤ 57) ∨ (65 ≤ c.toNat ∧ c.toNat ≤ 90) ∨ (97 ≤ c.toNat ∧ c.toNat ≤ 122) := by
  simpa only [isAsciiAlnum, Bool.or_eq_true, Bool.and_eq_true, decide_eq_true_eq, or_assoc] using h

/-- The code point of a plain character. -/
theorem plainChar_range {c : Char} (h : plainChar c = true) :
    c.toNat = 45 ∨ c.toNat = 46 ∨ (48 ≤ c.toNat ∧ c.toNat ≤ 57) ∨ (65 ≤ c.toNat ∧ c.toNat ≤ 90) ∨ c.toNat = 95 ∨
      (97 ≤ c.toNat ∧ c.toNat ≤ 122) := by
  rcases plainChar_iff.mp h with h | rfl | rfl | rfl
  · have hcases := alnum_cases h
    omega
  · decide
  · decide
  · decide

theorem ne_of_toNat {c d : Char} (h : c.toNat ≠ d.toNat) : c ≠ d := fun hcd => h (congrArg Char.toNat hcd)

theorem plainChar_ne {c d : Char} (h : plainChar c = true) (hd : plainChar d = false) : c ≠ d := by
  rintro rfl
  rw [h] at hd
  cases hd

theorem toNat_asciiLower (c : Char) : (asciiLower c).toNat = if 65 ≤ c.toNat ∧ c.toNat ≤ 90 then c.toNat + 32 else c.toNat := by
  rw [asciiLower]
  by_cases hc : 65 ≤ c.toNat ∧ c.toNat ≤ 90
  · have hvalid : (c.toNat + 32).isValidChar := Or.inl (by omega)
    rw [if_pos hc, if_pos (by simpa using hc), Char.ofNat, dif_pos hvalid]
    rfl
  · rw [if_neg hc, if_neg (by simpa using hc)]

theorem plainChar_lower {c : Char} (h : plainChar c = true) : plainChar (asciiLower c) = true := by
  by_cases hc : 65 ≤ c.toNat ∧ c.toNat ≤ 90
  · apply plainChar_iff.mpr
    left
    have hcode := toNat_asciiLower c
    rw [if_pos hc] at hcode
    simp only [isAsciiAlnum, Bool.or_eq_true, Bool.and_eq_true, decide_eq_true_eq]
    omega
  · rw [asciiLower, if_neg (by simpa using hc)]
    exact h

/-- What a reference is written with. -/
def refChar (c : Char) : Bool := plainChar c || c = '@' || c = ':' || c = '/' || c = '+'

theorem refChar_iff {c : Char} : refChar c = true ↔ plainChar c = true ∨ c = '@' ∨ c = ':' ∨ c = '/' ∨ c = '+' := by
  simp only [refChar, Bool.or_eq_true, decide_eq_true_eq, or_assoc]

theorem refChar_range {c : Char} (h : refChar c = true) : 43 ≤ c.toNat ∧ c.toNat ≤ 122 ∧ c.toNat ≠ 92 ∧ c.toNat ≠ 96 := by
  rcases refChar_iff.mp h with h | rfl | rfl | rfl | rfl
  · have hrange := plainChar_range h
    omega
  all_goals decide

theorem refChar_space {c : Char} (h : refChar c = true) : isSpace c = false := by
  obtain ⟨hlow, hhigh, -, -⟩ := refChar_range h
  simp only [isSpace, Bool.or_eq_false_iff, Bool.and_eq_false_iff, decide_eq_false_iff_not]
  omega

theorem stripped_ref {text : List Char} (h : ∀ c ∈ text, refChar c = true) : stripped text = text := by
  have hkeep : ∀ l : List Char, (∀ c ∈ l, refChar c = true) → l.dropWhile isSpace = l := by
    intro l hl
    cases l with
    | nil => rfl
    | cons c l => rw [List.dropWhile_cons_of_neg (by simp [refChar_space (hl c List.mem_cons_self)])]
  rw [stripped, FrontMatter.rstrip, FrontMatter.lstrip, hkeep text h,
    hkeep text.reverse fun c hc => h c (List.mem_reverse.mp hc), List.reverse_reverse]

theorem ticksOff_ref {text : List Char} (h : ∀ c ∈ text, refChar c = true) : ticksOff text = text := by
  have hkeep : ∀ l : List Char, (∀ c ∈ l, refChar c = true) → l.dropWhile (· = backtick) = l := by
    intro l hl
    cases l with
    | nil => rfl
    | cons c l =>
      have hc : c ≠ backtick := ne_of_toNat (refChar_range (hl c List.mem_cons_self)).2.2.2
      rw [List.dropWhile_cons_of_neg (by simpa using hc)]
  rw [ticksOff, hkeep text h, hkeep text.reverse fun c hc => h c (List.mem_reverse.mp hc), List.reverse_reverse]

theorem normalized_ref (py : Runtime) {text : List Char} (h : ∀ c ∈ text, refChar c = true) :
    normalized py text = slashesOff (gitOff (lowered text)) := by
  have hslash : text.map (fun c => if c = '\\' then '/' else c) = text := by
    rw [List.map_congr_left (g := id), List.map_id]
    intro c hc
    exact if_neg (ne_of_toNat (refChar_range (h c hc)).2.2.1)
  have hascii : ∀ c ∈ (String.ofList text).toList, c.toNat < 128 := by
    intro c hc
    rw [String.toList_ofList] at hc
    have hrange := refChar_range (h c hc)
    omega
  rw [normalized, stripped_ref h, ticksOff_ref h]
  simp only [hslash]
  rw [py.lower_ascii _ hascii, String.toList_ofList, String.toList_ofList]
  rfl

/-! ## Path components -/

theorem components_append (a b : List Char) : components (a ++ '/' :: b) = components a ++ components b := by
  rw [components, List.splitOn_append_cons_self, nonempty, List.filter_append]
  rfl

theorem components_single {a : List Char} (hne : a ≠ []) (h : '/' ∉ a) : components a = [a] := by
  rw [components, List.splitOn_eq_singleton h]
  simp [nonempty, hne]

theorem slashesOff_keep {a : List Char} (h : ∀ c ∈ a.getLast?, c ≠ '/') : slashesOff a = a := by
  rw [slashesOff]
  cases hrev : a.reverse with
  | nil => rw [List.reverse_eq_nil_iff.mp hrev]; rfl
  | cons c rest =>
    have hlast : c ∈ a.getLast? := by
      rw [← List.head?_reverse, hrev]
      rfl
    rw [List.dropWhile_cons_of_neg (by simpa using h c hlast), ← hrev, List.reverse_reverse]

theorem gitOff_keep {a : List Char} (h : ¬ ".git".toList <:+ a) : gitOff a = a := if_neg h

theorem gitOff_append (a : List Char) : gitOff (a ++ ".git".toList) = a := by
  rw [gitOff, if_pos (List.suffix_append a _)]
  simp

/-- A word without a slash ends a text only if it ends its last component. -/
theorem suffix_component {w a b : List Char} (h : w <:+ a ++ '/' :: b) (hw : '/' ∉ w) : w <:+ b := by
  rcases List.suffix_or_suffix_of_suffix h (List.suffix_append a ('/' :: b)) with hs | hs
  · rcases List.suffix_cons_iff.mp hs with rfl | hs
    · exact absurd List.mem_cons_self hw
    · exact hs
  · exact absurd (hs.subset List.mem_cons_self) hw

/-- A text is cut at its last slash in one way. -/
theorem cut_last {a b c d : List Char} (h : a ++ '/' :: b = c ++ '/' :: d) (hb : '/' ∉ b) (hd : '/' ∉ d) : b = d := by
  have hbd : b <:+ c ++ '/' :: d := by
    rw [← h]
    exact (List.suffix_cons '/' b).trans (List.suffix_append a _)
  have hdb : d <:+ a ++ '/' :: b := by
    rw [h]
    exact (List.suffix_cons '/' d).trans (List.suffix_append c _)
  have hlow := (suffix_component hbd hb).length_le
  have hhigh := suffix_component hdb hd
  exact (hhigh.eq_of_length (by have := hhigh.length_le; omega)).symm

theorem mem_components {a c : List Char} (h : c ∈ components a) : c ≠ [] ∧ '/' ∉ c := by
  obtain ⟨hmem, hne⟩ := List.mem_filter.mp h
  refine ⟨by simpa using hne, fun hslash => ?_⟩
  have hnot := (TextLines.mem_splitOnP hmem hslash).2
  simp at hnot

theorem lastComponent_plain {py : Runtime} {v c : List Char} (h : lastComponent py v = some c) : c ≠ [] ∧ '/' ∉ c :=
  mem_components (List.mem_of_getLast? h)

/-- The last two components are something before a slash, and the last one. -/
theorem lastTwo_parts {py : Runtime} {v a : List Char} (h : lastTwo py v = some a) :
    ∃ front name, a = front ++ '/' :: name ∧ lastComponent py v = some name := by
  rw [lastTwo] at h
  split at h
  · rename_i name owner more hrev
    split at h
    · cases h
    · refine ⟨owner, name, (Option.some.inj h).symm, ?_⟩
      rw [lastComponent, ← List.head?_reverse, hrev]
      rfl
  · cases h

theorem mem_aliases {py : Runtime} {v a : List Char} : a ∈ repoReferenceAliases py v ↔
    a ≠ [] ∧ (a = normalized py v ∨ lastComponent py (normalized py v) = some a ∨ lastTwo py (normalized py v) = some a) := by
  simp only [repoReferenceAliases, nonempty, List.mem_filter, List.mem_append, List.mem_cons, Option.mem_toList,
    decide_eq_true_eq, or_assoc]
  exact and_comm

/-! ## The aliases of a spelled reference -/

theorem lowered_plain {text : List Char} (h : ∀ c ∈ text, plainChar c = true) : ∀ c ∈ lowered text, plainChar c = true := by
  intro c hc
  obtain ⟨d, hd, rfl⟩ := List.mem_map.mp hc
  exact plainChar_lower (h d hd)

theorem plain_not_mem {text : List Char} (h : ∀ c ∈ text, plainChar c = true) {d : Char} (hd : plainChar d = false) : d ∉ text :=
  fun hmem => plainChar_ne (h d hmem) hd rfl

namespace Name

def lower (n : Name) : List Char := lowered n.text

theorem lower_plain (n : Name) : ∀ c ∈ n.lower, plainChar c = true := lowered_plain n.plain

theorem lower_ne (n : Name) : n.lower ≠ [] := by
  intro h
  exact n.ne (List.map_eq_nil_iff.mp h)

theorem no_slash (n : Name) : '/' ∉ n.lower := plain_not_mem n.lower_plain (by decide)

end Name

/-- The path a reference with this owner and name comes to. -/
def pairText (owner name : Name) : List Char := owner.lower ++ '/' :: name.lower

theorem git_no_slash : '/' ∉ ".git".toList := by decide

theorem not_git_behind (a : List Char) (name : Name) : ¬ ".git".toList <:+ a ++ '/' :: name.lower :=
  fun h => name.notGit (suffix_component h git_no_slash)

theorem last_behind (a : List Char) (name : Name) : ∀ c ∈ (a ++ '/' :: name.lower).getLast?, c ≠ '/' := by
  intro c hc
  rw [List.getLast?_append, List.getLast?_cons] at hc
  have hlast : c ∈ name.lower.getLast? := by
    obtain ⟨last, hlast⟩ := Option.ne_none_iff_exists'.mp (mt List.getLast?_eq_none_iff.mp name.lower_ne)
    rw [hlast] at hc ⊢
    exact hc
  exact plainChar_ne (name.lower_plain c (List.mem_of_getLast? hlast)) (by decide)

/-- A text whose path is that of the owner and name. -/
theorem lastComponent_of_path {py : Runtime} {text : List Char} {owner name : Name}
    (h : referencePath py text = pairText owner name) : lastComponent py text = some name.lower := by
  rw [lastComponent, h, pairText, components_append, components_single owner.lower_ne owner.no_slash,
    components_single name.lower_ne name.no_slash]
  rfl

theorem lastTwo_of_path {py : Runtime} {text : List Char} {owner name : Name}
    (h : referencePath py text = pairText owner name) (hhead : text.head? ≠ some '/') :
    lastTwo py text = some (pairText owner name) := by
  rw [lastTwo, h, pairText, components_append, components_single owner.lower_ne owner.no_slash,
    components_single name.lower_ne name.no_slash]
  exact if_neg hhead

theorem finish_path (a : List Char) (name : Name) : slashesOff (gitOff (a ++ '/' :: name.lower)) = a ++ '/' :: name.lower := by
  rw [gitOff_keep (not_git_behind a name), slashesOff_keep (last_behind a name)]

theorem no_scheme {text : List Char} (h : ':' ∉ text) : ¬ "://".toList <:+: text := by
  intro hin
  exact h (hin.subset (by decide))

/-- `owner/name` is its own path. -/
theorem path_short (py : Runtime) (owner name : Name) : referencePath py (pairText owner name) = pairText owner name := by
  have hcolon : ':' ∉ pairText owner name := by
    intro h
    rcases List.mem_append.mp h with h | h
    · exact plain_not_mem owner.lower_plain (by decide) h
    · rcases List.mem_cons.mp h with h | h
      · cases h
      · exact plain_not_mem name.lower_plain (by decide) h
  rw [referencePath, if_neg (no_scheme hcolon), if_neg fun h => hcolon h.1]
  exact finish_path owner.lower name

/-- A name alone is its own path. -/
theorem lastComponent_bare (py : Runtime) (name : Name) : lastComponent py name.lower = some name.lower := by
  have hcolon : ':' ∉ name.lower := plain_not_mem name.lower_plain (by decide)
  have hlast : ∀ c ∈ name.lower.getLast?, c ≠ '/' :=
    fun c hc => plainChar_ne (name.lower_plain c (List.mem_of_getLast? hc)) (by decide)
  have hpath : referencePath py name.lower = name.lower := by
    rw [referencePath, if_neg (no_scheme hcolon), if_neg fun h => hcolon h.1,
      gitOff_keep (show ¬ ".git".toList <:+ name.lower from name.notGit), slashesOff_keep hlast]
  rw [lastComponent, hpath, components_single name.lower_ne name.no_slash]
  rfl

/-- A span up to the first character that ends it. -/
theorem takeWhile_stop {p : Char → Bool} {span : List Char} (h : ∀ c ∈ span, p c = true) {c : Char} (hc : p c = false)
    (rest : List Char) : (span ++ c :: rest).takeWhile p = span ∧ (span ++ c :: rest).dropWhile p = c :: rest := by
  constructor
  · rw [List.takeWhile_append_of_pos h, List.takeWhile_cons_of_neg (by simp [hc]), List.append_nil]
  · rw [List.dropWhile_append_of_pos h, List.dropWhile_cons_of_neg (by simp [hc])]

theorem pair_chars (owner name : Name) : ∀ c ∈ pairText owner name, plainChar c = true ∨ c = '/' := by
  intro c hc
  rcases List.mem_append.mp hc with hc | hc
  · exact .inl (owner.lower_plain c hc)
  · rcases List.mem_cons.mp hc with hc | hc
    · exact .inr hc
    · exact .inl (name.lower_plain c hc)

theorem pair_ne (owner name : Name) {d : Char} (hd : plainChar d = false) (hslash : d ≠ '/') : ∀ c ∈ '/' :: pairText owner name, c ≠ d := by
  rintro c hc rfl
  rcases List.mem_cons.mp hc with rfl | hc
  · exact hslash rfl
  · rcases pair_chars owner name c hc with h | h
    · rw [h] at hd
      cases hd
    · exact hslash h

theorem takeWhile_all {p : Char → Bool} {l : List Char} (h : ∀ c ∈ l, p c = true) : l.takeWhile p = l :=
  List.takeWhile_eq_self_iff.mpr h

theorem paramsOff_keep {path : List Char} (h : ∀ c ∈ path, c ≠ ';') : paramsOff path = path := by
  have hsuffix : (path.reverse.takeWhile (· ≠ '/')).reverse <:+ path := by
    rw [← List.reverse_prefix, List.reverse_reverse]
    exact List.takeWhile_prefix _
  have hkeep := takeWhile_all (p := (· ≠ ';')) fun c hc => by simpa using h c (hsuffix.subset hc)
  rw [paramsOff, hkeep]
  exact List.suffix_iff_eq_append.mp hsuffix

/-- Behind the host stands the path. -/
theorem pathBehind_pair {bad : List Char → Bool} {scheme netloc : List Char} (hbad : bad netloc = false)
    (hnetloc : ∀ c ∈ netloc, plainChar c = true ∨ c = '@' ∨ c = ':') (owner name : Name) :
    pathBehind bad scheme ("//".toList ++ (netloc ++ '/' :: pairText owner name)) = some ('/' :: pairText owner name) := by
  have hopen : ∀ c ∈ netloc, (!(decide (c = '/') || decide (c = '?') || decide (c = '#'))) = true := by
    intro c hc
    rcases hnetloc c hc with h | rfl | rfl
    · have hslash := plainChar_ne h (show plainChar '/' = false by decide)
      have hquery := plainChar_ne h (show plainChar '?' = false by decide)
      have hhash := plainChar_ne h (show plainChar '#' = false by decide)
      simp [hslash, hquery, hhash]
    · decide
    · decide
  obtain ⟨htake, hdrop⟩ := takeWhile_stop (p := fun c => !(decide (c = '/') || decide (c = '?') || decide (c = '#'))) hopen (c := '/')
    (by decide) (pairText owner name)
  have hhosted : "//".toList.isPrefixOf ("//".toList ++ (netloc ++ '/' :: pairText owner name)) = true :=
    List.isPrefixOf_iff_prefix.mpr (List.prefix_append _ _)
  have hpath : (('/' :: pairText owner name).takeWhile (· ≠ '#')).takeWhile (· ≠ '?') = '/' :: pairText owner name := by
    rw [takeWhile_all (l := '/' :: pairText owner name) fun c hc => by simpa using pair_ne owner name (d := '#') (by decide) (by decide) c hc,
      takeWhile_all fun c hc => by simpa using pair_ne owner name (d := '?') (by decide) (by decide) c hc]
  have hbehind : ("//".toList ++ (netloc ++ '/' :: pairText owner name)).drop 2 = netloc ++ '/' :: pairText owner name := rfl
  rw [pathBehind]
  simp only [hhosted, if_true, hbehind, htake, hdrop, hpath, hbad, Bool.false_eq_true, if_false]
  rw [paramsOff_keep (pair_ne owner name (by decide) (by decide)), ite_self]

theorem pair_head {owner name : Name} {c : Char} {rest : List Char} (h : pairText owner name = c :: rest) : plainChar c = true := by
  obtain ⟨d, more, howner⟩ := List.exists_cons_of_ne_nil owner.lower_ne
  rw [pairText, howner, List.cons_append] at h
  obtain ⟨rfl, -⟩ := List.cons.inj h
  exact owner.lower_plain d (howner ▸ List.mem_cons_self)

theorem slashesAround_pair (owner name : Name) : slashesAround (pairText owner name) = pairText owner name := by
  obtain ⟨c, rest, hpair⟩ := List.exists_cons_of_ne_nil (show pairText owner name ≠ [] by simp [pairText])
  have hc : c ≠ '/' := plainChar_ne (pair_head hpair) (by decide)
  rw [slashesAround, hpair, List.dropWhile_cons_of_neg (by simpa using hc), ← hpair]
  exact slashesOff_keep (last_behind owner.lower name)

theorem slashesAround_slash (path : List Char) : slashesAround ('/' :: path) = slashesAround path := by
  rw [slashesAround, List.dropWhile_cons_of_pos (by decide), slashesAround]

namespace Form

/-- The beginning in lower case. -/
def lower (f : Form) : List Char := lowered f.front

theorem front_chars (f : Form) : ∀ c ∈ f.front, refChar c = true := by
  have hplain : ∀ c, plainChar c = true → refChar c = true := fun c h => refChar_iff.mpr (.inl h)
  cases f with
  | short => exact List.forall_mem_nil _
  | url scheme netloc hscheme hnetloc =>
    intro c hc
    rcases List.mem_append.mp hc with hc | hc
    · have hall := List.all_eq_true.mp (Bool.and_eq_true_iff.mp hscheme).2 c hc
      simp only [Bool.or_eq_true, decide_eq_true_eq] at hall
      rcases hall with ((hall | rfl) | rfl) | rfl
      · exact hplain c (plainChar_iff.mpr (.inl hall))
      all_goals decide
    · rcases List.mem_append.mp hc with hc | hc
      · rcases List.mem_cons.mp hc with rfl | hc
        · decide
        · rw [List.mem_replicate (n := 2) (a := '/') |>.mp hc |>.2]
          decide
      · rcases List.mem_append.mp hc with hc | hc
        · rcases hnetloc c hc with h | rfl | rfl
          · exact hplain c h
          · decide
          · decide
        · rw [List.mem_singleton.mp hc]
          decide
  | scp login hlogin hat =>
    intro c hc
    rcases List.mem_append.mp hc with hc | hc
    · rcases hlogin c hc with h | rfl
      · exact hplain c h
      · decide
    · rw [List.mem_singleton.mp hc]
      decide

end Form

theorem lowered_append (a b : List Char) : lowered (a ++ b) = lowered a ++ lowered b := List.map_append

theorem isScheme_lower {scheme : List Char} (h : isScheme scheme = true) : isScheme (lowered scheme) = true := by
  obtain ⟨hhead, hall⟩ := Bool.and_eq_true_iff.mp h
  apply Bool.and_eq_true_iff.mpr
  constructor
  · cases scheme with
    | nil => exact hhead
    | cons c rest =>
      have hletter : isAsciiLetter c = true := hhead
      simp only [isAsciiLetter, isAsciiAlnum, Bool.and_eq_true, Bool.or_eq_true, Bool.not_eq_true', Bool.and_eq_false_iff,
        decide_eq_true_eq, decide_eq_false_iff_not] at hletter
      have hcode := toNat_asciiLower c
      have hlow : 97 ≤ (asciiLower c).toNat ∧ (asciiLower c).toNat ≤ 122 := by
        split at hcode <;> omega
      simp only [lowered, List.map_cons, List.head?_cons, Option.any_some, isAsciiLetter, isAsciiAlnum, Bool.and_eq_true,
        Bool.or_eq_true, Bool.not_eq_true', Bool.and_eq_false_iff, decide_eq_true_eq, decide_eq_false_iff_not]
      omega
  · apply List.all_eq_true.mpr
    intro c hc
    obtain ⟨d, hd, rfl⟩ := List.mem_map.mp hc
    have hchar := List.all_eq_true.mp hall d hd
    simp only [Bool.or_eq_true, decide_eq_true_eq] at hchar ⊢
    rcases hchar with ((hchar | rfl) | rfl) | rfl
    · have hcases := alnum_cases hchar
      have hcode := toNat_asciiLower d
      left; left; left
      simp only [isAsciiAlnum, Bool.or_eq_true, Bool.and_eq_true, decide_eq_true_eq]
      split at hcode <;> omega
    all_goals decide

theorem scheme_chars {scheme : List Char} (h : isScheme scheme = true) : ∀ c ∈ scheme, c ≠ ':' := by
  rintro c hc rfl
  exact absurd (List.all_eq_true.mp (Bool.and_eq_true_iff.mp h).2 ':' hc) (by decide)

theorem lowered_ref {text : List Char} (h : ∀ c ∈ text, refChar c = true) : ∀ c ∈ lowered text, refChar c = true := by
  intro c hc
  obtain ⟨d, hd, rfl⟩ := List.mem_map.mp hc
  rcases refChar_iff.mp (h d hd) with hd | rfl | rfl | rfl | rfl
  · exact refChar_iff.mpr (.inl (plainChar_lower hd))
  all_goals decide

/-- A URL is read up to its path. -/
theorem urlPath_ref {bad : List Char → Bool} {scheme rest : List Char} (hscheme : isScheme scheme = true)
    (h : ∀ c ∈ scheme ++ ':' :: rest, refChar c = true) :
    urlPath bad (scheme ++ ':' :: rest) = pathBehind bad scheme rest := by
  have hdrop : (scheme ++ ':' :: rest).dropWhile (fun c => decide (c.toNat ≤ 32)) = scheme ++ ':' :: rest := by
    cases hcons : scheme ++ ':' :: rest with
    | nil => rfl
    | cons c more =>
      have hrange := refChar_range (h c (hcons ▸ List.mem_cons_self))
      rw [List.dropWhile_cons_of_neg]
      simp only [decide_eq_true_eq]
      omega
  have hfilter : (scheme ++ ':' :: rest).filter (fun c => decide (c ∉ ['\t', '\r', '\n'])) = scheme ++ ':' :: rest := by
    apply List.filter_eq_self.mpr
    intro c hc
    have hrange := refChar_range (h c hc)
    simp only [List.mem_cons, List.not_mem_nil, or_false, not_or, decide_eq_true_eq]
    refine ⟨ne_of_toNat ?_, ne_of_toNat ?_, ne_of_toNat ?_⟩ <;> simp <;> omega
  obtain ⟨htake, -⟩ := takeWhile_stop (p := (· ≠ ':')) (fun c hc => by simpa using scheme_chars hscheme c hc) (c := ':')
    (by decide) rest
  have hmem : ':' ∈ scheme ++ ':' :: rest := List.mem_append_right _ List.mem_cons_self
  rw [urlPath]
  simp only [hdrop, hfilter, htake]
  rw [if_pos ⟨hmem, hscheme⟩, List.drop_length_add_append]
  rfl

theorem netloc_lower {netloc : List Char} (h : ∀ c ∈ netloc, plainChar c = true ∨ c = '@' ∨ c = ':') :
    ∀ c ∈ lowered netloc, plainChar c = true ∨ c = '@' ∨ c = ':' := by
  intro c hc
  obtain ⟨d, hd, rfl⟩ := List.mem_map.mp hc
  rcases h d hd with hd | rfl | rfl
  · exact .inl (plainChar_lower hd)
  · exact .inr (.inl rfl)
  · exact .inr (.inr rfl)

theorem pair_ref (owner name : Name) : ∀ c ∈ pairText owner name, refChar c = true := by
  intro c hc
  rcases pair_chars owner name c hc with h | rfl
  · exact refChar_iff.mpr (.inl h)
  · decide

/-- Whatever stands before it, the path is that of the owner and the name. -/
theorem path_form (py : Runtime) (f : Form) (owner name : Name) :
    referencePath py (f.lower ++ pairText owner name) = pairText owner name := by
  cases f with
  | short => exact path_short py owner name
  | url scheme netloc hscheme hnetloc =>
    have htext : (Form.url scheme netloc hscheme hnetloc).lower ++ pairText owner name =
        lowered scheme ++ ':' :: ("//".toList ++ (lowered netloc ++ '/' :: pairText owner name)) := by
      simp only [Form.lower, Form.front, lowered_append, List.append_assoc]
      rfl
    have href : ∀ c ∈ (Form.url scheme netloc hscheme hnetloc).lower ++ pairText owner name, refChar c = true := by
      intro c hc
      rcases List.mem_append.mp hc with hc | hc
      · exact lowered_ref (Form.front_chars _) c hc
      · exact pair_ref owner name c hc
    have hbad : py.badNetloc (lowered netloc) = false := by
      apply py.badNetloc_ascii
      intro c hc
      rcases netloc_lower hnetloc c hc with h | rfl | rfl
      · have hrange := plainChar_range h
        refine ⟨by omega, ne_of_toNat ?_, ne_of_toNat ?_⟩ <;> simp <;> omega
      · decide
      · decide
    have hin : "://".toList <:+: lowered scheme ++ ':' :: ("//".toList ++ (lowered netloc ++ '/' :: pairText owner name)) :=
      ⟨lowered scheme, lowered netloc ++ '/' :: pairText owner name, by simp⟩
    rw [htext] at href ⊢
    rw [referencePath, if_pos hin, urlPath_ref (isScheme_lower hscheme) href,
      pathBehind_pair hbad (netloc_lower hnetloc) owner name, Option.map_some, Option.getD_some,
      slashesAround_slash, slashesAround_pair]
    exact finish_path owner.lower name
  | scp login hlogin hat =>
    have hlower : ∀ c ∈ lowered login, plainChar c = true ∨ c = '@' := by
      intro c hc
      obtain ⟨d, hd, rfl⟩ := List.mem_map.mp hc
      rcases hlogin d hd with hd | rfl
      · exact .inl (plainChar_lower hd)
      · exact .inr rfl
    have hcolon : ∀ c ∈ lowered login, c ≠ ':' := by
      rintro c hc rfl
      rcases hlower ':' hc with h | h
      · exact absurd h (by decide)
      · cases h
    have htext : (Form.scp login hlogin hat).lower ++ pairText owner name = lowered login ++ ':' :: pairText owner name := by
      rw [Form.lower, Form.front, lowered_append, List.append_assoc]
      rfl
    have hno : ¬ "://".toList <:+: lowered login ++ ':' :: pairText owner name := by
      rintro ⟨a, b, heq⟩
      have hcut : a ++ ':' :: ("//".toList ++ b) = lowered login ++ ':' :: pairText owner name := by
        rw [← heq]
        simp
      have hpair : ':' ∉ pairText owner name := fun h => pair_ne owner name (d := ':') (by decide) (by decide) ':'
        (List.mem_cons_of_mem _ h) rfl
      obtain ⟨-, -, hrest⟩ := (List.append_cons_inj_of_notMem (fun h => hcolon ':' h rfl) hpair).mp hcut.symm
      have hslash : plainChar '/' = true := pair_head hrest
      exact absurd hslash (by decide)
    obtain ⟨-, hdrop⟩ := takeWhile_stop (p := (· ≠ ':')) (fun c hc => by simpa using hcolon c hc) (c := ':') (by decide)
      (pairText owner name)
    have hmem : ':' ∈ lowered login ++ ':' :: pairText owner name := List.mem_append_right _ List.mem_cons_self
    have hsign : '@' ∈ lowered login ++ ':' :: pairText owner name :=
      List.mem_append_left _ (List.mem_map.mpr ⟨'@', hat, rfl⟩)
    rw [htext, referencePath, if_neg hno, if_pos ⟨hmem, hsign⟩, hdrop, List.drop_one, List.tail_cons, slashesAround_pair]
    exact finish_path owner.lower name

/-- No beginning starts with a slash. -/
theorem Form.head (f : Form) {c : Char} (h : f.front.head? = some c) : plainChar c = true ∨ c = '@' := by
  cases f with
  | short => cases h
  | url scheme netloc hscheme hnetloc =>
    obtain ⟨hhead, hall⟩ := Bool.and_eq_true_iff.mp hscheme
    cases scheme with
    | nil => cases hhead
    | cons d rest =>
      obtain rfl : d = c := Option.some.inj h
      left
      exact plainChar_iff.mpr (.inl (Bool.and_eq_true_iff.mp hhead).1)
  | scp login hlogin hat =>
    cases login with
    | nil => cases hat
    | cons d rest =>
      obtain rfl : d = c := Option.some.inj h
      exact hlogin d List.mem_cons_self

theorem head_form (f : Form) (owner name : Name) : (f.lower ++ pairText owner name).head? ≠ some '/' := by
  intro h
  cases hfront : f.front with
  | nil =>
    rw [Form.lower, hfront] at h
    obtain ⟨c, rest, hpair⟩ := List.exists_cons_of_ne_nil (show pairText owner name ≠ [] by simp [pairText])
    have hhead : (pairText owner name).head? = some '/' := h
    rw [hpair] at hhead
    exact absurd (Option.some.inj hhead ▸ pair_head hpair) (by decide)
  | cons c rest =>
    rw [Form.lower, hfront] at h
    have hslash : asciiLower c = '/' := Option.some.inj h
    rcases f.head (by rw [hfront]; rfl) with hc | rfl
    · exact absurd (hslash ▸ plainChar_lower hc) (by decide)
    · cases hslash

namespace Qualified

variable (py : Runtime) (q : Qualified)

def pair : List Char := pairText q.owner q.name

/-- The reference as it is compared. -/
def core : List Char := q.form.lower ++ q.pair

theorem text_chars : ∀ c ∈ q.text, refChar c = true := by
  intro c hc
  have hplain : ∀ c, plainChar c = true → refChar c = true := fun c h => refChar_iff.mpr (.inl h)
  rcases List.mem_append.mp hc with hc | hc
  · exact q.form.front_chars c hc
  · rcases List.mem_append.mp hc with hc | hc
    · exact hplain c (q.owner.plain c hc)
    · rcases List.mem_cons.mp hc with rfl | hc
      · decide
      · rcases List.mem_append.mp hc with hc | hc
        · exact hplain c (q.name.plain c hc)
        · split at hc
          · have hgit : ".git".toList.all refChar = true := by decide
            exact List.all_eq_true.mp hgit c hc
          · cases hc

theorem core_eq : q.core = (q.form.lower ++ q.owner.lower) ++ '/' :: q.name.lower := by
  rw [core, pair, pairText, List.append_assoc]

theorem lowered_text : lowered q.text = q.core ++ if q.git then ".git".toList else [] := by
  have hgit : lowered (if q.git then ".git".toList else []) = if q.git then ".git".toList else [] := by
    split <;> rfl
  have hslash : lowered ('/' :: (q.name.text ++ if q.git then ".git".toList else [])) =
      '/' :: (q.name.lower ++ lowered (if q.git then ".git".toList else [])) :=
    congrArg (List.cons '/') (lowered_append q.name.text _)
  rw [text, lowered_append, lowered_append, hslash, hgit, core_eq, List.append_assoc, List.append_assoc]
  rfl

theorem normalized_text : normalized py q.text = q.core := by
  rw [normalized_ref py q.text_chars, lowered_text]
  split
  · rw [gitOff_append, core_eq, slashesOff_keep (last_behind _ q.name)]
  · rw [List.append_nil, core_eq, finish_path]

theorem lastComponent_core : lastComponent py q.core = some q.name.lower := lastComponent_of_path (path_form py q.form q.owner q.name)

theorem lastTwo_core : lastTwo py q.core = some q.pair :=
  lastTwo_of_path (path_form py q.form q.owner q.name) (head_form q.form q.owner q.name)

/-- A qualified reference shares an alias with another one exactly if its name is the last component of
that. -/
theorem shares_iff (v : List Char) : (∃ a ∈ repoReferenceAliases py q.text, a ∈ repoReferenceAliases py v) ↔
    lastComponent py (normalized py v) = some q.name.lower := by
  constructor
  · rintro ⟨a, ha, hv⟩
    obtain ⟨-, ha⟩ := mem_aliases.mp ha
    obtain ⟨-, hv⟩ := mem_aliases.mp hv
    rw [normalized_text, lastComponent_core, lastTwo_core] at ha
    have hbehind : (a = q.core ∨ a = q.pair) → ∃ front, a = front ++ '/' :: q.name.lower := by
      rintro (rfl | rfl)
      · exact ⟨_, q.core_eq⟩
      · exact ⟨_, rfl⟩
    have hname : a = q.name.lower → lastComponent py a = some q.name.lower ∧ '/' ∉ a := by
      rintro rfl
      exact ⟨lastComponent_bare py q.name, q.name.no_slash⟩
    have hlast : lastComponent py a = some q.name.lower := by
      rcases ha with rfl | ha | ha
      · exact q.lastComponent_core py
      · exact (hname (Option.some.inj ha).symm).1
      · rw [← Option.some.inj ha]
        exact lastComponent_of_path (path_short py q.owner q.name)
    rcases hv with rfl | hv | hv
    · exact hlast
    · have hslash := (lastComponent_plain hv).2
      rcases ha with ha | ha | ha
      · obtain ⟨front, hfront⟩ := hbehind (.inl ha)
        exact absurd (hfront ▸ List.mem_append_right front List.mem_cons_self) hslash
      · rw [hv, ← Option.some.inj ha]
      · obtain ⟨front, hfront⟩ := hbehind (.inr (Option.some.inj ha).symm)
        exact absurd (hfront ▸ List.mem_append_right front List.mem_cons_self) hslash
    · obtain ⟨front, name, hcut, hcomponent⟩ := lastTwo_parts hv
      have hslash : '/' ∈ a := hcut ▸ List.mem_append_right front List.mem_cons_self
      have hcuts : ∃ before, a = before ++ '/' :: q.name.lower := by
        rcases ha with ha | ha | ha
        · exact hbehind (.inl ha)
        · exact absurd hslash (hname (Option.some.inj ha).symm).2
        · exact hbehind (.inr (Option.some.inj ha).symm)
      obtain ⟨before, hbefore⟩ := hcuts
      rw [hcomponent, cut_last (hcut.symm.trans hbefore) (lastComponent_plain hcomponent).2 q.name.no_slash]
  · intro h
    refine ⟨q.name.lower, mem_aliases.mpr ⟨q.name.lower_ne, .inr (.inl ?_)⟩, mem_aliases.mpr ⟨q.name.lower_ne, .inr (.inl h)⟩⟩
    rw [normalized_text]
    exact q.lastComponent_core py

end Qualified

/-! ## The verdict of the guard -/

section
variable {py : Runtime} {cfg : Config} {codes : IssueCodes} {issue : Issue}

theorem mem_configured {a : List Char} :
    a ∈ configuredRepoAliases py cfg ↔ ∃ v ∈ cfg.references, a ∈ repoReferenceAliases py v := List.mem_flatMap

theorem match_iff {hints : List (List Char)} : repoHintsMatchConfig py cfg hints = true ↔
    ∃ hint ∈ hints, ∃ v ∈ cfg.references, ∃ a ∈ repoReferenceAliases py hint, a ∈ repoReferenceAliases py v := by
  simp only [repoHintsMatchConfig, List.any_eq_true, decide_eq_true_eq, mem_configured]
  constructor
  · rintro ⟨hint, hhint, a, ha, v, hv, hav⟩
    exact ⟨hint, hhint, v, hv, a, ha, hav⟩
  · rintro ⟨hint, hhint, v, hv, a, ha, hav⟩
    exact ⟨hint, hhint, a, ha, v, hv, hav⟩

/-- Qualified hints match exactly if the name of one is configured. -/
theorem match_qualified {hints : List (List Char)} (h : ∀ hint ∈ hints, ∃ q : Qualified, q.text = hint) :
    repoHintsMatchConfig py cfg hints = true ↔ ∃ q : Qualified, q.text ∈ hints ∧ IsConfigured py cfg q.name := by
  rw [match_iff]
  constructor
  · rintro ⟨hint, hhint, v, hv, hshared⟩
    obtain ⟨q, rfl⟩ := h hint hhint
    exact ⟨q, hhint, v, hv, (q.shares_iff py v).mp hshared⟩
  · rintro ⟨q, hq, v, hv, hname⟩
    exact ⟨q.text, hq, v, hv, (q.shares_iff py v).mpr hname⟩

theorem slug_configured {owner name : Name} (hslug : cfg.slug = owner.text ++ '/' :: name.text) {other : Name}
    (hname : lowered other.text = lowered name.text) : IsConfigured py cfg other := by
  let q : Qualified := ⟨.short, owner, name, false⟩
  have htext : cfg.slug = q.text := by
    rw [hslug, Qualified.text]
    simp [q, Form.front]
  refine ⟨cfg.slug, List.mem_cons_self, ?_⟩
  rw [htext, q.normalized_text, hname]
  exact q.lastComponent_core py

/-- A hint for the configured repository matches. -/
theorem denotes_match {owner name : Name} (hslug : cfg.slug = owner.text ++ '/' :: name.text) {hints : List (List Char)}
    {hint : List Char} (hhint : hint ∈ hints) (h : Denotes py cfg owner name hint) : repoHintsMatchConfig py cfg hints = true := by
  apply match_iff.mpr
  cases h with
  | qualified q howner hname =>
    have hconfigured : IsConfigured py cfg q.name := slug_configured hslug hname
    obtain ⟨v, hv, hlast⟩ := hconfigured
    exact ⟨q.text, hhint, v, hv, (q.shares_iff py v).mpr hlast⟩
  | bare other hname =>
    have hconfigured : IsConfigured py cfg other := slug_configured hslug hname
    obtain ⟨v, hv, hlast⟩ := hconfigured
    refine ⟨other.text, hhint, v, hv, other.lower, ?_, mem_aliases.mpr ⟨other.lower_ne, .inr (.inl hlast)⟩⟩
    have href : ∀ c ∈ other.text, refChar c = true := fun c hc => refChar_iff.mpr (.inl (other.plain c hc))
    have hends : ∀ c ∈ (lowered other.text).getLast?, c ≠ '/' :=
      fun c hc => plainChar_ne (other.lower_plain c (List.mem_of_getLast? hc)) (by decide)
    refine mem_aliases.mpr ⟨other.lower_ne, .inl ?_⟩
    rw [normalized_ref py href, gitOff_keep (show ¬ ".git".toList <:+ lowered other.text from other.notGit),
      slashesOff_keep hends]
    rfl
  | reference _ hv hne =>
    have hself : normalized py hint ∈ repoReferenceAliases py hint := mem_aliases.mpr ⟨hne, .inl rfl⟩
    exact ⟨hint, hhint, hint, hv, normalized py hint, hself, hself⟩

theorem strip_ne {text : String} {c : Char} (hc : c ∈ text.toList) (hspace : isSpace c = false) : strip text ≠ "" := by
  intro h
  have hgone := of_stripBy_eq_empty h c hc
  rw [hspace] at hgone
  cases hgone

theorem strip_append_ne {a : String} (b : String) {c : Char} (hc : c ∈ a.toList) (hspace : isSpace c = false) :
    strip (a ++ b) ≠ "" := by
  apply strip_ne (c := c) _ hspace
  rw [String.toList_append]
  exact List.mem_append_left _ hc

theorem mismatch_ne (cfg : Config) (hints : List (List Char)) : strip (mismatchMessage cfg hints) ≠ "" :=
  strip_append_ne (c := 'L') _ (by decide +kernel) (by decide)

theorem missing_ne : strip missingMessage ≠ "" := strip_append_ne (c := 'L') _ (by decide +kernel) (by decide)

/-- A blocker of the guard stops the launch. -/
theorem launch_blocked {kind message : String} (hkind : kind ∈ routingBlockers) (hmessage : strip message ≠ "")
    (h : issueContract py codes cfg issue = contractWithBlocker (taskContractCompleteness (codes.first issue)) kind message) :
    launch py codes cfg issue = .error (strip message) := by
  have hne : kind ≠ "" := by
    rintro rfl
    exact absurd hkind (by decide)
  have htext : message ≠ "" := by
    rintro rfl
    exact hmessage (by decide)
  have hblocker : contractHardBlocker (launchContract py codes cfg issue) = strip message := by
    rw [contractHardBlocker, launchContract, h, contractWithBlocker, mergeContractCompleteness]
    simp only [Bool.false_eq_true, if_false, orElse, if_neg hne, if_neg htext, if_pos hkind]
  rw [launch, hblocker, if_pos hmessage]

theorem incomplete_not_hard (issueCodes : List String) : (taskContractCompleteness issueCodes).blockerKind ∉ routingBlockers := by
  have hempty : "" ∉ routingBlockers := by decide
  have hincomplete : "contract_incomplete" ∉ routingBlockers := by decide
  rw [taskContractCompleteness]
  split
  · exact hempty
  · exact hincomplete

/-- A task the guard leaves alone is launched. -/
theorem launch_passed (h : issueContract py codes cfg issue = taskContractCompleteness (codes.first issue)) :
    Passed py codes cfg issue := by
  refine ⟨h, ?_⟩
  have hkind : (launchContract py codes cfg issue).blockerKind ∉ routingBlockers := by
    rw [launchContract, h, mergeContractCompleteness]
    split
    · exact incomplete_not_hard _
    · simp only [orElse]
      split
      · exact incomplete_not_hard _
      · exact incomplete_not_hard _
  rw [launch, contractHardBlocker, if_neg hkind, if_neg (by simp)]

theorem blocked_mismatch (hne : issueRepoHints py issue ≠ [])
    (h : repoHintsMatchConfig py cfg (issueRepoHints py issue) = false) : Blocked py codes cfg issue "repo_binding_mismatch" := by
  have hcontract : issueContract py codes cfg issue = contractWithBlocker (taskContractCompleteness (codes.first issue))
      "repo_binding_mismatch" (mismatchMessage cfg (issueRepoHints py issue)) := by
    rw [issueContract, applyRepoRoutingGuard, if_neg fun hnone => hne hnone.1, if_pos ⟨hne, h⟩]
  exact ⟨by rw [hcontract]; rfl, _, launch_blocked (by decide) (mismatch_ne _ _) hcontract⟩

theorem passed_match (hne : issueRepoHints py issue ≠ [])
    (h : repoHintsMatchConfig py cfg (issueRepoHints py issue) = true) : Passed py codes cfg issue := by
  apply launch_passed
  rw [issueContract, applyRepoRoutingGuard, if_neg fun hnone => hne hnone.1, if_neg]
  rintro ⟨-, hnot⟩
  rw [h] at hnot
  cases hnot

end

/-! ## Examples -/

def sampleRuntime : Runtime where
  lower := fun s => String.ofList (s.toList.map asciiLower)
  repr := fun _ => ""
  lower_empty := asciiLower_empty
  isDigit := Char.isDigit
  int := fun v => match v with
    | .int n => some n
    | _ => none
  lower_ascii := fun _ _ => rfl
  isWord := fun c => isAsciiAlnum c || c = '_'
  badNetloc := fun _ => false
  badNetloc_ascii := fun _ _ => rfl

def sampleConfig (slug path : String) : Config := ⟨slug.toList, path.toList, [], [], path.toList, []⟩

def sampleIssue (body : String) : Issue := [("description", .str body)]

def complete : IssueCodes := ⟨fun _ => [], fun _ => []⟩

def sampleName (text : String) (h : (text.toList.all plainChar && !text.toList.isEmpty &&
    !decide (".git".toList <:+ text.toList.map asciiLower)) = true) : Name where
  text := text.toList
  plain := List.all_eq_true.mp (Bool.and_eq_true_iff.mp (Bool.and_eq_true_iff.mp h).1).1
  ne := by
    intro hnil
    rw [hnil] at h
    simp at h
  notGit := by
    have hgit := (Bool.and_eq_true_iff.mp h).2
    simpa using hgit

def otherApp : Qualified := ⟨.short, sampleName "other" (by decide), sampleName "app" (by decide), false⟩

end RepoGuard
