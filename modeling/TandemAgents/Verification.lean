import Mathlib.Data.List.Infix
import TandemAgents.JsonData

/-!
# The verification policy

A reviewer and a tester answer in JSON, and the repository is validated. The policy
labels both answers and combines them into one outcome. Where Python raises, `none`
stands.
-/
namespace Verification

open PythonText JsonData

set_option maxRecDepth 20000

/-- `json.loads`, which fails on other texts, and `json.dumps(..., sort_keys=True)`. -/
structure Runtime extends Python where
  loads : String → Option Json
  dumps : Json → String

/-- What `stream_tandem_prompt` returns of a process. -/
structure ProcessResult where
  returncode : Option Int
  stdout : String

inductive Outcome where
  | pass | humanReviewNeeded | repairNeeded | blocked
  deriving DecidableEq, Repr

def Outcome.text : Outcome → String
  | .pass => "pass"
  | .humanReviewNeeded => "human_review_needed"
  | .repairNeeded => "repair_needed"
  | .blocked => "blocked"

def repairActions : List String :=
  ["repair_needed", "repair", "retry", "needs_changes", "changes_requested", "fix_required", "revise", "fail", "failed"]

def humanReviewActions : List String :=
  ["human_review_needed", "human_review", "human_review_required", "manual_review", "needs_human_review",
    "review_inconclusive_verification_required"]

def blockedActions : List String := ["blocked", "pending", "in_progress", "error", "incomplete", "unknown"]

def severeWords : List String := ["critical", "high", "error", "blocking", "blocker", "fatal"]

section
variable (py : Runtime)

/-! ## Reading the answers -/

/-- From the first `{` to the last `}`. -/
def braced (text : String) : Option String :=
  let tail := ((text.toList.dropWhile (· ≠ '{')).reverse.dropWhile (· ≠ '}')).reverse
  if tail = [] then none else some (String.ofList tail)

def loadsDict (candidate : String) : Option Dict := (py.loads candidate).bind Json.asDict

/-- `_extract_json`. -/
def extractJson (text : String) : Option Dict :=
  if strip text = "" then none
  else (loadsDict py (strip text)).orElse fun _ => (braced text).bind (fun candidate => loadsDict py (strip candidate))

/-- `_extract_json(...) or {}`. -/
def payloadOf (text : String) : Dict := (extractJson py text).getD []

def normalizedText (v : Json) : String := py.lower (strip (py.text v))

/-- `_normalized_action`. -/
def normalizedAction (v : Json) : String := replaceChar '-' '_' (normalizedText py v)

/-- `_repo_validation_passed_command_checks`. -/
def repoValidationPassedCommandChecks (repo : Dict) : Option Bool :=
  if (repo.get "ok").truthy then do
    let checks ← (repo.get "command_checks").toList
    if checks = [] then return false
    let failures ← (repo.get "command_failures").toList
    if failures ≠ [] then return false
    return checks.all (fun check => check.asDict.any (fun d => decide (normalizedAction py (d.get "status") = "pass")))
  else some false

def gapMarkers : List String :=
  ["missing_validation", "missing validation", "not successfully run", "not run", "not executed", "no validation",
    "validation is inconclusive", "could not run", "unable to run", "commands were not", "checks were not"]

/-- `_tester_outcome_is_only_missing_validation`. -/
def testerOutcomeIsOnlyMissingValidation (payload repo : Dict) : Option Bool := do
  if ← repoValidationPassedCommandChecks py repo then
    if (payload.get "findings").truthy || (payload.get "required_fixes").truthy then return false
    return gapMarkers.any (fun marker => decide (marker.toList <:+: (py.lower (py.dumps (.obj payload))).toList))
  else return false

/-! ## Labels -/

/-- `payload.get("next_action") or payload.get("action") or payload.get("outcome")`. -/
def nextAction (payload : Dict) : String :=
  normalizedAction py ((payload.get "next_action").or ((payload.get "action").or (payload.get "outcome")))

def severeFindings (findings : List Json) : List Dict :=
  (findings.filterMap Json.asDict).filter (fun finding => decide (normalizedAction py (finding.get "severity") ∈ severeWords))

/-- `review_status or next_action or last`. -/
def firstWord (status action last : String) : String := orElse status (orElse action last)

/-- `_severity_label` for the reviewer. -/
def reviewLabel (status : String) (payload : Dict) : Option (Outcome × Option String) := do
  let action := nextAction py payload
  let word := normalizedAction py (.str status)
  let findings ← (payload.get "findings").toList
  if action ∈ humanReviewActions ∨ word ∈ humanReviewActions then
    return (.humanReviewNeeded, some ("Reviewer status is `" ++ firstWord status action "unknown" ++ "`."))
  if action ∈ repairActions ∨ word ∈ repairActions then
    return (.repairNeeded, some "Reviewer reported required fixes.")
  if severeFindings py findings ≠ [] then
    return (.repairNeeded, some "Reviewer reported high-severity findings.")
  if (payload.get "required_fixes").truthy then
    return (.repairNeeded, some "Reviewer reported required fixes.")
  if action ∈ blockedActions ∨ word ∈ blockedActions then
    return (.blocked, some ("Reviewer status is `" ++ firstWord status action "blocked" ++ "`."))
  return (.pass, none)

/-- A result of the tester has one of the states. -/
def resultIn (words : List String) (result : Json) : Bool :=
  result.asDict.any (fun d => decide (normalizedAction py (d.get "status") ∈ words))

/-- `results_status`. -/
def resultsStatus (payload : Dict) : String :=
  match payload.get "results" with
  | .str s => normalizedAction py (.str s)
  | .arr results =>
    if results.any (resultIn py ["fail", "failed", "error"]) then "failed"
    else if results.any (resultIn py ["blocked", "pending", "in_progress"]) then "blocked"
    else "pass"
  | _ => normalizedAction py (payload.get "overall_status")

/-- `_severity_label` for the tester, which reads the findings but does not judge them. -/
def testLabel (status : String) (payload : Dict) : Option (Outcome × Option String) := do
  let action := nextAction py payload
  let word := normalizedAction py (.str status)
  let _ ← (payload.get "findings").toList
  let results := resultsStatus py payload
  if action ∈ humanReviewActions ∨ word ∈ humanReviewActions then
    return (.humanReviewNeeded, some ("Tester status is `" ++ firstWord status action "unknown" ++ "`."))
  if action ∈ repairActions ∨ word ∈ repairActions ∨ results = "failed" then
    return (.repairNeeded, some ("Tester results are `" ++ orElse results (firstWord status action "failed") ++ "`."))
  if action ∈ blockedActions ∨ word ∈ blockedActions ∨ results ∈ ["blocked", "pending", "in_progress"] then
    return (.blocked, some ("Tester results are `" ++ orElse results (firstWord status action "blocked") ++ "`."))
  return (.pass, none)

def reviewStatus (payload : Dict) : String :=
  normalizedText py ((payload.get "review_status").or ((payload.get "status").or
    ((payload.get "overall_status").or (payload.get "verdict"))))

def testStatus (payload : Dict) : String :=
  normalizedText py ((payload.get "status").or ((payload.get "overall_status").or (payload.get "verdict")))

/-! ## Blockers -/

def knownKeys : List String :=
  ["review_status", "status", "overall_status", "verdict", "next_action", "action", "outcome", "findings",
    "required_fixes", "tests", "validation", "results"]

def describe (v : Json) : Json := .obj [("description", .str (py.str v))]

/-- The values that are not blank, each as the description of a fix. -/
def described (values : List Json) : List Json :=
  (values.filter (fun v => decide (strip (py.str v) ≠ ""))).map (describe py)

/-- The required fixes as `review_blocker_message` normalizes them. -/
def normalizedFixes (payload : Dict) : List Json :=
  match payload.get "required_fixes" with
  | .obj fixes => described py (fixes.map (·.2))
  | .arr fixes => fixes
  | _ => []

/-- The payload `review_blocker_message` labels. The search for known keys comes behind
the assignment of one of them. -/
def blockerPayload (payload : Dict) : Dict :=
  let assigned := payload.set "required_fixes" (.arr (normalizedFixes py payload))
  if knownKeys.any (fun key => assigned.contains key) then assigned
  else if assigned ≠ [] ∧ assigned.all (fun f => f.2.asStr.isSome) then
    assigned.set "required_fixes" (.arr (normalizedFixes py payload ++ described py (assigned.map (·.2))))
  else assigned

/-- `review_blocker_message`. -/
def reviewBlockerMessage (review : ProcessResult) : Option (Option String) := do
  let payload := blockerPayload py (payloadOf py review.stdout)
  let status := reviewStatus py payload
  let findings ← (payload.get "findings").toList
  let label ← reviewLabel py status payload
  return match label.1 with
    | .pass => none
    | .humanReviewNeeded => label.2
    | .repairNeeded =>
      if severeFindings py findings ≠ [] then some "Reviewer reported high-severity findings."
      else if (payload.get "required_fixes").truthy then some "Reviewer reported required fixes."
      else some (label.2.getD "Reviewer reported required fixes.")
    | .blocked =>
      if status ≠ "" then some ("Reviewer status is `" ++ status ++ "`.")
      else some (label.2.getD "Reviewer blocked the run.")

/-- Whether the outcome of the tester is set aside. -/
def setAside (outcome : Outcome) (payload repo : Dict) : Option Bool :=
  if outcome = .humanReviewNeeded ∨ outcome = .blocked then testerOutcomeIsOnlyMissingValidation py payload repo
  else some false

/-- `test_blocker_message`. -/
def testBlockerMessage (test : ProcessResult) (repo : Dict) : Option (Option String) := do
  let payload := payloadOf py test.stdout
  let label ← testLabel py (testStatus py payload) payload
  if ← setAside py label.1 payload repo then return none
  return if label.1 = .pass then none else label.2

/-- `", ".join(files)`, which raises unless all of them are texts. -/
def joinFiles (files : List Json) : Option String := (files.mapM Json.asStr).map commaJoin

/-- `repo_validation_blocker_message`. -/
def repoValidationBlockerMessage (repo : Dict) : Option (Option String) := do
  if (repo.get "verification_missing").truthy then return some "Verification commands are missing."
  let unexpected ← (repo.get "unexpected_files").toList
  let missing ← (repo.get "missing_files").toList
  let unreadable ← (repo.get "unreadable_files").toList
  let commandFailures ← (repo.get "command_failures").toList
  if unexpected ≠ [] then return some ("Unexpected repository files changed: " ++ (← joinFiles unexpected))
  if missing ≠ [] then return some ("Expected repository files are missing: " ++ (← joinFiles missing))
  if unreadable ≠ [] then return some ("Expected repository files are unreadable: " ++ (← joinFiles unreadable))
  match commandFailures with
  | [] => return none
  | first :: _ =>
    let first ← first.asDict
    return some ("Repository validation command failed: " ++ strip (py.text (first.get "command")))

/-- `repo_validation_blocker_kind`. -/
def repoValidationBlockerKind (repo : Dict) : Option String :=
  if (repo.get "verification_missing").truthy then some "verification_missing"
  else if (repo.get "unexpected_files").truthy then some "unexpected_repo_changes"
  else if (repo.get "missing_files").truthy then some "expected_files_missing"
  else if (repo.get "unreadable_files").truthy then some "expected_files_unreadable"
  else if (repo.get "command_failures").truthy then some "verification_failed"
  else none

/-! ## The decision -/

structure Decision where
  outcome : Outcome
  failureCategory : Option String
  reviewBlocker : Option String
  testBlocker : Option String
  repoBlocker : Option String
  validationBlocker : Option String
  shouldRetry : Bool
  reviewReturncode : Option Int
  testReturncode : Option Int
  reviewOutcome : Outcome
  testOutcome : Outcome

/-- `outcome`, from the two labels and the blocker of the repository. -/
def combine (review test : Outcome) (repoBlocker : Option String) : Outcome :=
  if review = .humanReviewNeeded ∨ test = .humanReviewNeeded then .humanReviewNeeded
  else if review = .blocked ∨ test = .blocked ∨ repoBlocker.isSome then .blocked
  else if review = .repairNeeded ∨ test = .repairNeeded then .repairNeeded
  else .pass

/-- `validation_blocker` and `failure_category`. -/
def blame (review test : Outcome) (reviewBlocker testBlocker repoBlocker kind : Option String)
    (verificationMissing : Bool) : Option String × Option String :=
  let first := fun a b c : Option String => (a.orElse fun _ => b).orElse fun _ => c
  if review = .humanReviewNeeded then (first reviewBlocker testBlocker repoBlocker, some "review_human_review_needed")
  else if test = .humanReviewNeeded then (first testBlocker reviewBlocker repoBlocker, some "test_human_review_needed")
  else if review = .repairNeeded then (first reviewBlocker testBlocker repoBlocker, some "review_repair_needed")
  else if test = .repairNeeded then (first testBlocker reviewBlocker repoBlocker, some "test_repair_needed")
  else if review = .blocked then (first reviewBlocker testBlocker repoBlocker, some "review_blocked")
  else if test = .blocked then (first testBlocker reviewBlocker repoBlocker, some "test_blocked")
  else (first repoBlocker reviewBlocker testBlocker, if repoBlocker.isSome ∨ verificationMissing then kind else none)

/-- `evaluate_verification_policy`. -/
def evaluateVerificationPolicy (review test : ProcessResult) (repoValidation : Option Dict) : Option Decision := do
  let repo := repoValidation.getD []
  let reviewBlocker ← reviewBlockerMessage py review
  let testBlocker ← testBlockerMessage py test repo
  let repoBlocker ← repoValidationBlockerMessage py repo
  let reviewPayload := payloadOf py review.stdout
  let testPayload := payloadOf py test.stdout
  let reviewLabelled ← reviewLabel py (reviewStatus py reviewPayload) reviewPayload
  let testLabelled ← testLabel py (testStatus py testPayload) testPayload
  let aside ← setAside py testLabelled.1 testPayload repo
  let reviewOutcome := reviewLabelled.1
  let testOutcome := if aside then .pass else testLabelled.1
  let blamed := blame reviewOutcome testOutcome reviewBlocker testBlocker repoBlocker (repoValidationBlockerKind repo)
    (repo.get "verification_missing").truthy
  return {
    outcome := combine reviewOutcome testOutcome repoBlocker
    failureCategory := blamed.2
    reviewBlocker := reviewBlocker
    testBlocker := testBlocker
    repoBlocker := repoBlocker
    validationBlocker := blamed.1
    shouldRetry := (decide (reviewOutcome = .repairNeeded) || decide (testOutcome = .repairNeeded)) &&
      (decide (review.returncode.getD 0 = 0) || decide (test.returncode.getD 0 = 0) || blamed.1.isSome ||
        repoBlocker.isSome)
    reviewReturncode := review.returncode
    testReturncode := test.returncode
    reviewOutcome := reviewOutcome
    testOutcome := testOutcome }

/-- What `_run_once_internal_impl` does with a decision. -/
inductive GateAction where
  | retry | block | finalize
  deriving DecidableEq

/-- The verification gate of a run that may or may not try again. -/
def verificationGate (canRetry : Bool) (d : Decision) : GateAction :=
  if d.shouldRetry then (if canRetry then .retry else .block)
  else if d.outcome ≠ .pass then .block
  else .finalize

end
end Verification
