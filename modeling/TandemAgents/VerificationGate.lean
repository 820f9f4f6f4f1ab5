import TandemAgents.Verification

/-!
# What the verification policy lets pass

A run passes when nothing in the answers and in the validation stands against it. An
answer that is missing says nothing, so that a crashed reviewer does not stand against a
run.
-/
namespace VerificationGate

open PythonText JsonData Verification

set_option maxRecDepth 20000

variable (py : Runtime)

/-- The words by which an answer can stand against a run. -/
def againstWords : List String := humanReviewActions ++ (repairActions ++ blockedActions)

/-- Nothing in the answer of the reviewer stands against the run. -/
structure ReviewSilent (payload : Dict) : Prop where
  findings : ∃ fs, (payload.get "findings").toList = some fs ∧ severeFindings py fs = []
  fixes : (payload.get "required_fixes").truthy = false
  action : nextAction py payload ∉ againstWords
  status : normalizedAction py (.str (reviewStatus py payload)) ∉ againstWords

/-- Nothing in the answer of the tester stands against the run. -/
structure TestSilent (payload : Dict) : Prop where
  findings : (payload.get "findings").toList.isSome = true
  action : nextAction py payload ∉ againstWords
  status : normalizedAction py (.str (testStatus py payload)) ∉ againstWords
  results : resultsStatus py payload ∉ ["failed", "blocked", "pending", "in_progress"]

/-- The validation names nothing that stands against the run. -/
structure RepoSilent (repo : Dict) : Prop where
  verificationMissing : (repo.get "verification_missing").truthy = false
  files : ∀ key ∈ ["unexpected_files", "missing_files", "unreadable_files", "command_failures"],
    (repo.get key).toList = some []

variable {py}

/-! ## The label of the reviewer -/

theorem not_against {w : String} : w ∉ againstWords ↔ w ∉ humanReviewActions ∧ w ∉ repairActions ∧ w ∉ blockedActions := by
  simp only [againstWords, List.mem_append, not_or]

/-- The label, with the questions it asks in their order. -/
theorem reviewLabel_eq (status : String) (payload : Dict) : reviewLabel py status payload =
    (payload.get "findings").toList.map fun findings =>
      if nextAction py payload ∈ humanReviewActions ∨ normalizedAction py (.str status) ∈ humanReviewActions then
        (.humanReviewNeeded, some ("Reviewer status is `" ++ firstWord status (nextAction py payload) "unknown" ++ "`."))
      else if nextAction py payload ∈ repairActions ∨ normalizedAction py (.str status) ∈ repairActions then
        (.repairNeeded, some "Reviewer reported required fixes.")
      else if severeFindings py findings ≠ [] then (.repairNeeded, some "Reviewer reported high-severity findings.")
      else if (payload.get "required_fixes").truthy then (.repairNeeded, some "Reviewer reported required fixes.")
      else if nextAction py payload ∈ blockedActions ∨ normalizedAction py (.str status) ∈ blockedActions then
        (.blocked, some ("Reviewer status is `" ++ firstWord status (nextAction py payload) "blocked" ++ "`."))
      else (.pass, none) := by
  unfold reviewLabel
  cases (payload.get "findings").toList with
  | none => rfl
  | some findings =>
    simp only [Option.bind_eq_bind, Option.bind_some, Option.map_some]
    split_ifs <;> rfl

theorem reviewLabel_pass {payload : Dict} : (∃ m, reviewLabel py (reviewStatus py payload) payload = some (.pass, m)) ↔
    ReviewSilent py payload := by
  rw [reviewLabel_eq]
  constructor
  · rintro ⟨m, h⟩
    obtain ⟨fs, hfs, h⟩ := Option.map_eq_some_iff.mp h
    split_ifs at h with hhuman hrepair hsevere hfixes hblocked
    · cases h
    · cases h
    · cases h
    · cases h
    · cases h
    obtain ⟨hhuman₁, hhuman₂⟩ := not_or.mp hhuman
    obtain ⟨hrepair₁, hrepair₂⟩ := not_or.mp hrepair
    obtain ⟨hblocked₁, hblocked₂⟩ := not_or.mp hblocked
    exact ⟨⟨fs, hfs, not_not.mp hsevere⟩, Bool.eq_false_iff.mpr hfixes, not_against.mpr ⟨hhuman₁, hrepair₁, hblocked₁⟩,
      not_against.mpr ⟨hhuman₂, hrepair₂, hblocked₂⟩⟩
  · intro h
    obtain ⟨fs, hfs, hsevere⟩ := h.findings
    obtain ⟨hhuman₁, hrepair₁, hblocked₁⟩ := not_against.mp h.action
    obtain ⟨hhuman₂, hrepair₂, hblocked₂⟩ := not_against.mp h.status
    refine ⟨none, ?_⟩
    rw [hfs, Option.map_some, if_neg (not_or.mpr ⟨hhuman₁, hhuman₂⟩), if_neg (not_or.mpr ⟨hrepair₁, hrepair₂⟩),
      if_neg (not_not.mpr hsevere), h.fixes, if_neg Bool.false_ne_true, if_neg (not_or.mpr ⟨hblocked₁, hblocked₂⟩)]

/-- The search for known keys finds the one just assigned, so that the branch behind it
is never taken. -/
theorem blockerPayload_eq (payload : Dict) :
    blockerPayload py payload = payload.set "required_fixes" (.arr (normalizedFixes py payload)) := by
  have hknown : knownKeys.any (fun key =>
      (payload.set "required_fixes" (.arr (normalizedFixes py payload))).contains key) = true :=
    List.any_eq_true.mpr ⟨"required_fixes", by decide, Dict.contains_set _ _ _⟩
  exact if_pos hknown

theorem blockerPayload_get (payload : Dict) {key : String} (h : key ≠ "required_fixes") :
    (blockerPayload py payload).get key = payload.get key := by
  rw [blockerPayload_eq, Dict.get_set, if_neg fun heq => h heq.symm]

theorem normalizedFixes_nil {payload : Dict} (h : (payload.get "required_fixes").truthy = false) :
    normalizedFixes py payload = [] := by
  unfold normalizedFixes
  cases hfix : payload.get "required_fixes" with
  | obj fixes =>
    rw [hfix] at h
    cases fixes with
    | nil => rfl
    | cons f fs => cases h
  | arr fixes =>
    rw [hfix] at h
    cases fixes with
    | nil => rfl
    | cons f fs => cases h
  | _ => rfl

theorem ReviewSilent.inBlocker {payload : Dict} (h : ReviewSilent py payload) :
    ReviewSilent py (blockerPayload py payload) := by
  have haction : nextAction py (blockerPayload py payload) = nextAction py payload := by
    unfold nextAction
    rw [blockerPayload_get _ (by decide), blockerPayload_get _ (by decide), blockerPayload_get _ (by decide)]
  have hstatus : reviewStatus py (blockerPayload py payload) = reviewStatus py payload := by
    unfold reviewStatus
    rw [blockerPayload_get _ (by decide), blockerPayload_get _ (by decide), blockerPayload_get _ (by decide),
      blockerPayload_get _ (by decide)]
  constructor
  · rw [blockerPayload_get _ (by decide)]
    exact h.findings
  · rw [blockerPayload_eq, Dict.get_set, if_pos rfl, normalizedFixes_nil h.fixes]
    rfl
  · rw [haction]
    exact h.action
  · rw [hstatus]
    exact h.status

/-- A reviewer that says nothing against the run blocks nothing. -/
theorem reviewBlocker_none {review : ProcessResult} (h : ReviewSilent py (payloadOf py review.stdout)) :
    reviewBlockerMessage py review = some none := by
  obtain ⟨fs, hfs, -⟩ := h.inBlocker.findings
  obtain ⟨m, hlabel⟩ := reviewLabel_pass.mpr h.inBlocker
  unfold reviewBlockerMessage
  simp only [hfs, hlabel, Option.bind_eq_bind, Option.bind_some]
  rfl

/-! ## The label of the tester -/

theorem testLabel_eq (status : String) (payload : Dict) : testLabel py status payload =
    (payload.get "findings").toList.map fun _ =>
      if nextAction py payload ∈ humanReviewActions ∨ normalizedAction py (.str status) ∈ humanReviewActions then
        (.humanReviewNeeded, some ("Tester status is `" ++ firstWord status (nextAction py payload) "unknown" ++ "`."))
      else if nextAction py payload ∈ repairActions ∨ normalizedAction py (.str status) ∈ repairActions ∨
          resultsStatus py payload = "failed" then
        (.repairNeeded, some ("Tester results are `" ++
          orElse (resultsStatus py payload) (firstWord status (nextAction py payload) "failed") ++ "`."))
      else if nextAction py payload ∈ blockedActions ∨ normalizedAction py (.str status) ∈ blockedActions ∨
          resultsStatus py payload ∈ ["blocked", "pending", "in_progress"] then
        (.blocked, some ("Tester results are `" ++
          orElse (resultsStatus py payload) (firstWord status (nextAction py payload) "blocked") ++ "`."))
      else (.pass, none) := by
  unfold testLabel
  cases (payload.get "findings").toList with
  | none => rfl
  | some findings =>
    simp only [Option.bind_eq_bind, Option.bind_some, Option.map_some]
    split_ifs <;> rfl

theorem testLabel_pass {payload : Dict} : (∃ m, testLabel py (testStatus py payload) payload = some (.pass, m)) ↔
    TestSilent py payload := by
  rw [testLabel_eq]
  constructor
  · rintro ⟨m, h⟩
    obtain ⟨fs, hfs, h⟩ := Option.map_eq_some_iff.mp h
    split_ifs at h with hhuman hrepair hblocked
    · cases h
    · cases h
    · cases h
    obtain ⟨hhuman₁, hhuman₂⟩ := not_or.mp hhuman
    obtain ⟨hrepair₁, hrepair₂, hfailed⟩ := by simpa only [not_or] using hrepair
    obtain ⟨hblocked₁, hblocked₂, hwaiting⟩ := by simpa only [not_or] using hblocked
    refine ⟨by rw [hfs]; rfl, not_against.mpr ⟨hhuman₁, hrepair₁, hblocked₁⟩,
      not_against.mpr ⟨hhuman₂, hrepair₂, hblocked₂⟩, ?_⟩
    rw [List.mem_cons, not_or]
    exact ⟨hfailed, hwaiting⟩
  · intro h
    obtain ⟨fs, hfs⟩ := Option.isSome_iff_exists.mp h.findings
    obtain ⟨hhuman₁, hrepair₁, hblocked₁⟩ := not_against.mp h.action
    obtain ⟨hhuman₂, hrepair₂, hblocked₂⟩ := not_against.mp h.status
    obtain ⟨hfailed, hwaiting⟩ := not_or.mp (mt List.mem_cons.mpr h.results)
    refine ⟨none, ?_⟩
    rw [hfs, Option.map_some, if_neg (not_or.mpr ⟨hhuman₁, hhuman₂⟩),
      if_neg (not_or.mpr ⟨hrepair₁, not_or.mpr ⟨hrepair₂, hfailed⟩⟩),
      if_neg (not_or.mpr ⟨hblocked₁, not_or.mpr ⟨hblocked₂, hwaiting⟩⟩)]

/-! ## The repository -/

/-- A list of files that is not empty blocks the run, or raises. -/
theorem joined_ne (text : String) (files : List Json) :
    ((joinFiles files).bind fun names => some (some (text ++ names))) ≠ some none := by
  cases joinFiles files with
  | none => exact fun h => by cases h
  | some names => exact fun h => by cases h

theorem repoBlocker_none {repo : Dict} : repoValidationBlockerMessage py repo = some none ↔ RepoSilent repo := by
  unfold repoValidationBlockerMessage
  constructor
  · intro h
    split_ifs at h with hmissing
    · cases h
    simp only [Option.bind_eq_bind, Option.bind_eq_some_iff] at h
    obtain ⟨unexpected, hu, missing, hm, unreadable, hr, failures, hf, h⟩ := h
    split_ifs at h with hune hmne hrne
    · exact absurd h (joined_ne _ _)
    · exact absurd h (joined_ne _ _)
    · exact absurd h (joined_ne _ _)
    cases failures with
    | cons first rest =>
      dsimp only at h
      cases hfirst : first.asDict with
      | none => rw [hfirst] at h; cases h
      | some d => rw [hfirst] at h; cases h
    | nil =>
      refine ⟨Bool.eq_false_iff.mpr hmissing, ?_⟩
      rw [not_not.mp hune] at hu
      rw [not_not.mp hmne] at hm
      rw [not_not.mp hrne] at hr
      intro key hkey
      simp only [List.mem_cons, List.not_mem_nil, or_false] at hkey
      obtain rfl | rfl | rfl | rfl := hkey
      · exact hu
      · exact hm
      · exact hr
      · exact hf
  · intro h
    have hu := h.files "unexpected_files" (by decide)
    have hm := h.files "missing_files" (by decide)
    have hr := h.files "unreadable_files" (by decide)
    have hf := h.files "command_failures" (by decide)
    rw [h.verificationMissing, hu, hm, hr, hf]
    rfl

/-! ## The decision -/

section
variable (py)

/-- The tester says nothing against the run, or only that checks were not run which the
repository validation ran. -/
def TestPasses (payload repo : Dict) : Prop :=
  TestSilent py payload ∨ ∃ label, testLabel py (testStatus py payload) payload = some label ∧
    (label.1 = .humanReviewNeeded ∨ label.1 = .blocked) ∧ testerOutcomeIsOnlyMissingValidation py payload repo = some true

/-- Nothing in the answers and in the validation stands against the run. -/
structure NothingAgainst (review test : ProcessResult) (repo : Dict) : Prop where
  review : ReviewSilent py (payloadOf py review.stdout)
  test : TestPasses py (payloadOf py test.stdout) repo
  repo : RepoSilent repo

/-- The process ended with return code 0 and printed a JSON object. -/
structure Answered (result : ProcessResult) : Prop where
  returncode : result.returncode = some 0
  verdict : (extractJson py result.stdout).isSome = true

/-- A run that passes, or is finalized, has the answers of a reviewer and of a tester, no
validation that failed, and no blocker. -/
def FailsClosed (review test : ProcessResult) (repoValidation : Option Dict) : Prop :=
  ∀ d, evaluateVerificationPolicy py review test repoValidation = some d →
    (d.outcome = .pass ∨ ∃ canRetry, verificationGate canRetry d = .finalize) →
      Answered py review ∧ Answered py test ∧
        (∀ repo, repoValidation = some repo → repo.get "ok" ≠ .bool false) ∧
        d.reviewBlocker = none ∧ d.testBlocker = none ∧ d.repoBlocker = none

end

theorem combine_pass {review test : Outcome} {repoBlocker : Option String} :
    combine review test repoBlocker = .pass ↔ review = .pass ∧ test = .pass ∧ repoBlocker = none := by
  cases review <;> cases test <;> cases repoBlocker <;> simp [combine]

/-- What the tester's answer comes to, and what it blocks. -/
theorem testPasses_iff {test : ProcessResult} {repo : Dict} : TestPasses py (payloadOf py test.stdout) repo ↔
    ∃ label aside, testLabel py (testStatus py (payloadOf py test.stdout)) (payloadOf py test.stdout) = some label ∧
      setAside py label.1 (payloadOf py test.stdout) repo = some aside ∧ (if aside then Outcome.pass else label.1) = .pass := by
  constructor
  · rintro (h | ⟨label, hl, hout, honly⟩)
    · obtain ⟨m, hl⟩ := testLabel_pass.mpr h
      exact ⟨(.pass, m), false, hl, rfl, rfl⟩
    · exact ⟨label, true, hl, by rw [setAside, if_pos hout, honly], rfl⟩
  · rintro ⟨⟨outcome, m⟩, aside, hl, haside, hpass⟩
    cases aside with
    | false =>
      have hout : outcome = .pass := hpass
      subst hout
      exact .inl (testLabel_pass.mp ⟨m, hl⟩)
    | true =>
      unfold setAside at haside
      split_ifs at haside with hout
      · exact .inr ⟨(outcome, m), hl, hout, haside⟩
      · cases haside

theorem testBlocker_none {test : ProcessResult} {repo : Dict} (h : TestPasses py (payloadOf py test.stdout) repo) :
    testBlockerMessage py test repo = some none := by
  obtain ⟨⟨outcome, m⟩, aside, hl, haside, hpass⟩ := testPasses_iff.mp h
  unfold testBlockerMessage
  simp only [hl, haside, Option.bind_eq_bind, Option.bind_some]
  cases aside with
  | true => rfl
  | false =>
    have hout : outcome = .pass := hpass
    rw [hout]
    rfl

/-- The parts of a decision. -/
theorem evaluate_parts {review test : ProcessResult} {repoValidation : Option Dict} {d : Decision}
    (h : evaluateVerificationPolicy py review test repoValidation = some d) :
    reviewBlockerMessage py review = some d.reviewBlocker ∧
    testBlockerMessage py test (repoValidation.getD []) = some d.testBlocker ∧
    repoValidationBlockerMessage py (repoValidation.getD []) = some d.repoBlocker ∧
    (∃ m, reviewLabel py (reviewStatus py (payloadOf py review.stdout)) (payloadOf py review.stdout) =
      some (d.reviewOutcome, m)) ∧
    (∃ label aside, testLabel py (testStatus py (payloadOf py test.stdout)) (payloadOf py test.stdout) = some label ∧
      setAside py label.1 (payloadOf py test.stdout) (repoValidation.getD []) = some aside ∧
      d.testOutcome = (if aside then .pass else label.1)) ∧
    d.outcome = combine d.reviewOutcome d.testOutcome d.repoBlocker ∧
    (d.shouldRetry = true → d.reviewOutcome = .repairNeeded ∨ d.testOutcome = .repairNeeded) := by
  unfold evaluateVerificationPolicy at h
  simp only [Option.bind_eq_bind, Option.bind_eq_some_iff] at h
  obtain ⟨rb, hrb, tb, htb, pb, hpb, rl, hrl, tl, htl, aside, haside, hd⟩ := h
  obtain rfl := Option.some.inj hd
  refine ⟨hrb, htb, hpb, ⟨rl.2, hrl⟩, ⟨tl, aside, htl, haside, rfl⟩, rfl, fun hretry => ?_⟩
  have hrepair := (Bool.and_eq_true_iff.mp hretry).1
  rwa [Bool.or_eq_true, decide_eq_true_eq, decide_eq_true_eq] at hrepair

theorem nothingAgainst_of_pass {review test : ProcessResult} {repoValidation : Option Dict} {d : Decision}
    (h : evaluateVerificationPolicy py review test repoValidation = some d) (hpass : d.outcome = .pass) :
    NothingAgainst py review test (repoValidation.getD []) := by
  obtain ⟨-, -, hrepo, ⟨m, hreview⟩, ⟨label, aside, hl, haside, htest⟩, hout, -⟩ := evaluate_parts h
  rw [hout, combine_pass] at hpass
  obtain ⟨hr, ht, hb⟩ := hpass
  constructor
  · exact reviewLabel_pass.mp ⟨m, hr ▸ hreview⟩
  · exact testPasses_iff.mpr ⟨label, aside, hl, haside, htest ▸ ht⟩
  · rw [hb] at hrepo
    exact repoBlocker_none.mp hrepo

/-- A run passes where nothing stands against it, and then nothing blocks it. -/
theorem evaluate_of_nothingAgainst {review test : ProcessResult} {repoValidation : Option Dict}
    (h : NothingAgainst py review test (repoValidation.getD [])) :
    ∃ d, evaluateVerificationPolicy py review test repoValidation = some d ∧ d.outcome = .pass := by
  have hrb := reviewBlocker_none h.review
  have htb := testBlocker_none h.test
  have hpb : repoValidationBlockerMessage py (repoValidation.getD []) = some none := repoBlocker_none.mpr h.repo
  obtain ⟨m, hreview⟩ := reviewLabel_pass.mpr h.review
  obtain ⟨label, aside, hl, haside, htest⟩ := testPasses_iff.mp h.test
  unfold evaluateVerificationPolicy
  simp only [hrb, htb, hpb, hreview, hl, haside, Option.bind_eq_bind, Option.bind_some]
  exact ⟨_, rfl, combine_pass.mpr ⟨rfl, htest, rfl⟩⟩

/-- The gate finalizes exactly the runs that pass. -/
theorem gate_finalize {review test : ProcessResult} {repoValidation : Option Dict} {d : Decision}
    (h : evaluateVerificationPolicy py review test repoValidation = some d) (canRetry : Bool) :
    verificationGate canRetry d = .finalize ↔ d.outcome = .pass := by
  obtain ⟨-, -, -, -, -, hout, hretry⟩ := evaluate_parts h
  unfold verificationGate
  constructor
  · intro hgate
    split_ifs at hgate with _ _ hpass
    exact not_not.mp hpass
  · intro hpass
    have hno : d.shouldRetry = false := by
      refine Bool.eq_false_iff.mpr fun hyes => ?_
      rw [hout, combine_pass] at hpass
      obtain hrep | hrep := hretry hyes
      · rw [hpass.1] at hrep
        cases hrep
      · rw [hpass.2.1] at hrep
        cases hrep
    rw [hno, if_neg Bool.false_ne_true, if_neg (not_not.mpr hpass)]

/-- Verification fails closed on exactly those answers and validations where something
stands against the run, or both processes ended well with a verdict and the validation is
not marked as failed. -/
theorem failsClosed_iff (py : Runtime) (review test : ProcessResult) (repoValidation : Option Dict) :
    FailsClosed py review test repoValidation ↔ (NothingAgainst py review test (repoValidation.getD []) →
      Answered py review ∧ Answered py test ∧
        ∀ repo, repoValidation = some repo → repo.get "ok" ≠ .bool false) := by
  constructor
  · intro h hnothing
    obtain ⟨d, hd, hpass⟩ := evaluate_of_nothingAgainst hnothing
    obtain ⟨hreview, htest, hok, -⟩ := h d hd (.inl hpass)
    exact ⟨hreview, htest, hok⟩
  · intro h d hd hor
    have hpass : d.outcome = .pass := by
      obtain hpass | ⟨canRetry, hgate⟩ := hor
      · exact hpass
      · exact (gate_finalize hd canRetry).mp hgate
    have hnothing := nothingAgainst_of_pass hd hpass
    obtain ⟨hrb, htb, hpb, -⟩ := evaluate_parts hd
    obtain ⟨hreview, htest, hok⟩ := h hnothing
    rw [reviewBlocker_none hnothing.review] at hrb
    rw [testBlocker_none hnothing.test] at htb
    rw [repoBlocker_none.mpr hnothing.repo] at hpb
    exact ⟨hreview, htest, hok, (Option.some.inj hrb).symm, (Option.some.inj htb).symm, (Option.some.inj hpb).symm⟩

/-! ## A reviewer and a tester that crash -/

/-- Texts of ASCII letters; no text is read as JSON. -/
def silentRuntime : Runtime where
  lower := fun s => String.ofList (s.toList.map asciiLower)
  repr := fun _ => ""
  lower_empty := asciiLower_empty
  loads := fun _ => none
  dumps := fun _ => "{}"

/-- A process that was killed before it printed anything. -/
def crashed : ProcessResult := ⟨some 137, ""⟩

/-- Reviewer and tester crash, and the run is finalized. -/
theorem crashed_passes : (evaluateVerificationPolicy silentRuntime crashed crashed (some [("ok", .bool true)])).any
      (fun d => decide (d.outcome = .pass ∧ verificationGate false d = .finalize)) = true ∧
    ¬ FailsClosed silentRuntime crashed crashed (some [("ok", .bool true)]) := by
  have hpass : (evaluateVerificationPolicy silentRuntime crashed crashed (some [("ok", .bool true)])).any
      (fun d => decide (d.outcome = .pass ∧ verificationGate false d = .finalize)) = true := by decide +kernel
  refine ⟨hpass, fun h => ?_⟩
  obtain ⟨d, hd, hout⟩ := (Option.any_eq_true _ _).mp hpass
  obtain ⟨hreview, -⟩ := h d hd (.inl (of_decide_eq_true hout).1)
  have hcode : (some 137 : Option Int) = some 0 := hreview.returncode
  cases hcode

end VerificationGate
