import TandemAgents.VerificationGate

/-!
# Outcomes and blockers

The policy labels an answer for its outcome, and labels it once more for the blocker it
reports. The reviewer's required fixes are rewritten before the second label: whatever
they lose there, the outcome still holds against the run and no blocker names it.
-/
namespace BlockerAgreement

open PythonText JsonData Verification VerificationGate

set_option maxRecDepth 20000

variable (py : Runtime)

/-- Apart from the required fixes, nothing in the answer of the reviewer stands against the
run. -/
structure SilentButFixes (payload : Dict) : Prop where
  findings : ∃ fs, (payload.get "findings").toList = some fs ∧ severeFindings py fs = []
  action : nextAction py payload ∉ againstWords
  status : normalizedAction py (.str (reviewStatus py payload)) ∉ againstWords

/-- Required fixes that are neither a list nor a dictionary with something in it. -/
def Unlisted : Json → Prop
  | .arr _ => False
  | .obj fixes => ∀ f ∈ fixes, strip (py.str f.2) = ""
  | _ => True

/-- The answer of the reviewer asks for fixes, in a form that gets lost, and for nothing
else. -/
structure FixesLost (payload : Dict) : Prop where
  required : (payload.get "required_fixes").truthy = true
  unlisted : Unlisted py (payload.get "required_fixes")
  rest : SilentButFixes py payload

/-- A decision passes where it names no blocker, and names one of an answer where it does not
let that answer pass. -/
structure Agrees (d : Decision) : Prop where
  outcome : d.outcome = .pass ↔ d.reviewBlocker = none ∧ d.testBlocker = none ∧ d.repoBlocker = none
  review : d.reviewBlocker = none ↔ d.reviewOutcome = .pass
  test : d.testBlocker = none ↔ d.testOutcome = .pass

variable {py}

/-! ## The two labels of the reviewer -/

theorem reviewSilent_iff {payload : Dict} :
    ReviewSilent py payload ↔ SilentButFixes py payload ∧ (payload.get "required_fixes").truthy = false :=
  ⟨fun h => ⟨⟨h.findings, h.action, h.status⟩, h.fixes⟩, fun h => ⟨h.1.findings, h.2, h.1.action, h.1.status⟩⟩

/-- Rewriting the required fixes changes nothing else. -/
theorem silentButFixes_blocker {payload : Dict} :
    SilentButFixes py (blockerPayload py payload) ↔ SilentButFixes py payload := by
  have hfindings : (blockerPayload py payload).get "findings" = payload.get "findings" := blockerPayload_get _ (by decide)
  have haction : nextAction py (blockerPayload py payload) = nextAction py payload := by
    unfold nextAction
    rw [blockerPayload_get _ (by decide), blockerPayload_get _ (by decide), blockerPayload_get _ (by decide)]
  have hstatus : reviewStatus py (blockerPayload py payload) = reviewStatus py payload := by
    unfold reviewStatus
    rw [blockerPayload_get _ (by decide), blockerPayload_get _ (by decide), blockerPayload_get _ (by decide),
      blockerPayload_get _ (by decide)]
  constructor
  · intro h
    exact ⟨hfindings ▸ h.findings, haction ▸ h.action, hstatus ▸ h.status⟩
  · intro h
    exact ⟨hfindings.symm ▸ h.findings, haction.symm ▸ h.action, hstatus.symm ▸ h.status⟩

theorem described_nil {values : List Json} : described py values = [] ↔ ∀ v ∈ values, strip (py.str v) = "" := by
  simp [described, List.filter_eq_nil_iff]

/-- The fixes the blocker is read from: none are left of a value that is unlisted. -/
theorem normalizedFixes_nil_iff {payload : Dict} : normalizedFixes py payload = [] ↔
    (payload.get "required_fixes").truthy = false ∨ Unlisted py (payload.get "required_fixes") := by
  unfold normalizedFixes
  cases payload.get "required_fixes" with
  | arr fixes => cases fixes <;> simp [Json.truthy, Unlisted]
  | obj fixes =>
    simp only [described_nil, Unlisted, List.forall_mem_map, Json.truthy]
    constructor
    · exact .inr
    · rintro (hempty | hblank)
      · cases fixes with
        | nil => intro f hf; cases hf
        | cons f fixes => cases hempty
      · exact hblank
  | null => simp [Unlisted]
  | bool b => simp [Unlisted]
  | int n => simp [Unlisted]
  | float text => simp [Unlisted]
  | str s => simp [Unlisted]

/-- The label behind a blocker of the reviewer. -/
theorem reviewBlocker_eq_none {review : ProcessResult} :
    reviewBlockerMessage py review = some none ↔ ReviewSilent py (blockerPayload py (payloadOf py review.stdout)) := by
  generalize hpayload : blockerPayload py (payloadOf py review.stdout) = payload
  rw [← reviewLabel_pass]
  unfold reviewBlockerMessage
  simp only [hpayload, Option.bind_eq_bind]
  rw [reviewLabel_eq]
  cases (payload.get "findings").toList with
  | none => simp
  | some findings =>
    simp only [Option.bind_some, Option.map_some]
    split_ifs <;> simp

theorem reviewBlocker_iff {review : ProcessResult} : reviewBlockerMessage py review = some none ↔
    SilentButFixes py (payloadOf py review.stdout) ∧
      (((payloadOf py review.stdout).get "required_fixes").truthy = false ∨
        Unlisted py ((payloadOf py review.stdout).get "required_fixes")) := by
  rw [reviewBlocker_eq_none, reviewSilent_iff, silentButFixes_blocker, ← normalizedFixes_nil_iff, blockerPayload_eq,
    Dict.get_set, if_pos rfl]
  simp [Json.truthy]

/-! ## The two labels of the tester -/

/-- The tester's answer blocks nothing where it passes or is set aside. -/
theorem testBlocker_iff {test : ProcessResult} {repo : Dict} :
    testBlockerMessage py test repo = some none ↔ TestPasses py (payloadOf py test.stdout) repo := by
  constructor
  · intro h
    unfold testBlockerMessage at h
    simp only [Option.bind_eq_bind, Option.bind_eq_some_iff] at h
    obtain ⟨label, hlabel, aside, haside, h⟩ := h
    refine testPasses_iff.mpr ⟨label, aside, hlabel, haside, ?_⟩
    cases aside with
    | true => rfl
    | false =>
      by_cases hpass : label.1 = .pass
      · exact hpass
      · have hnone : label.2 = none := by simpa [hpass] using h
        rw [testLabel_eq] at hlabel
        obtain ⟨fs, -, rfl⟩ := Option.map_eq_some_iff.mp hlabel
        exfalso
        revert hnone hpass
        split_ifs <;> simp
  · exact testBlocker_none

/-! ## The decision -/

/-- The policy's outcomes and blockers agree, unless the reviewer asks for fixes in a form
that gets lost, and for nothing else. -/
theorem agrees_iff {py : Runtime} {review test : ProcessResult} {repoValidation : Option Dict} {d : Decision}
    (h : evaluateVerificationPolicy py review test repoValidation = some d) :
    Agrees d ↔ ¬ FixesLost py (payloadOf py review.stdout) := by
  obtain ⟨hrb, htb, hpb, ⟨m, hreview⟩, ⟨label, aside, hl, haside, htest⟩, hout, -⟩ := evaluate_parts h
  have hreviewBlocker : d.reviewBlocker = none ↔ SilentButFixes py (payloadOf py review.stdout) ∧
      (((payloadOf py review.stdout).get "required_fixes").truthy = false ∨
        Unlisted py ((payloadOf py review.stdout).get "required_fixes")) := by
    rw [← reviewBlocker_iff, hrb, Option.some.injEq]
  have hreviewOutcome : d.reviewOutcome = .pass ↔ SilentButFixes py (payloadOf py review.stdout) ∧
      ((payloadOf py review.stdout).get "required_fixes").truthy = false := by
    rw [← reviewSilent_iff, ← reviewLabel_pass]
    constructor
    · intro hpass
      exact ⟨m, hpass ▸ hreview⟩
    · rintro ⟨m', hm'⟩
      rw [hm'] at hreview
      exact (Prod.mk.inj (Option.some.inj hreview)).1.symm
  have htestBlocker : d.testBlocker = none ↔ d.testOutcome = .pass := by
    have hblocker : d.testBlocker = none ↔ TestPasses py (payloadOf py test.stdout) (repoValidation.getD []) := by
      rw [← testBlocker_iff, htb, Option.some.injEq]
    rw [hblocker, testPasses_iff, htest]
    constructor
    · rintro ⟨label', aside', hl', haside', hpass⟩
      obtain rfl := Option.some.inj (hl.symm.trans hl')
      obtain rfl := Option.some.inj (haside.symm.trans haside')
      exact hpass
    · exact fun hpass => ⟨label, aside, hl, haside, hpass⟩
  have hagree : (d.reviewBlocker = none ↔ d.reviewOutcome = .pass) ↔ ¬ FixesLost py (payloadOf py review.stdout) := by
    rw [hreviewBlocker, hreviewOutcome]
    constructor
    · intro hiff hlost
      obtain ⟨-, hfalse⟩ := hiff.mp ⟨hlost.rest, .inr hlost.unlisted⟩
      rw [hlost.required] at hfalse
      cases hfalse
    · intro hkept
      constructor
      · rintro ⟨hrest, hempty | hunlisted⟩
        · exact ⟨hrest, hempty⟩
        · exact ⟨hrest, Bool.eq_false_iff.mpr fun hrequired => hkept ⟨hrequired, hunlisted, hrest⟩⟩
      · exact fun hpass => ⟨hpass.1, .inl hpass.2⟩
  constructor
  · intro hd
    exact hagree.mp hd.review
  · intro hkept
    have hreviewAgree := hagree.mpr hkept
    refine ⟨?_, hreviewAgree, htestBlocker⟩
    rw [hout, combine_pass, hreviewAgree, htestBlocker]

/-- An answer that is missing asks for nothing. -/
theorem crashed_agrees :
    ∃ d, evaluateVerificationPolicy silentRuntime crashed crashed (some [("ok", .bool true)]) = some d ∧ Agrees d := by
  have hsome : (evaluateVerificationPolicy silentRuntime crashed crashed (some [("ok", .bool true)])).isSome = true := by
    decide +kernel
  obtain ⟨d, hd⟩ := Option.isSome_iff_exists.mp hsome
  refine ⟨d, hd, (agrees_iff hd).mpr fun hlost => ?_⟩
  cases hlost.required

/-! ## A fix that is a text -/

/-- What the reviewer prints, and what `json.loads` makes of it. -/
def fixText : String := "\x7b\"required_fixes\": \"update the docs\"\x7d"

def fixRuntime : Runtime where
  lower := fun s => String.ofList (s.toList.map asciiLower)
  repr := fun _ => ""
  lower_empty := asciiLower_empty
  loads := fun s => if s = fixText then some (.obj [("required_fixes", .str "update the docs")]) else none
  dumps := fun _ => "\x7b\x7d"

/-- The run is to be repaired, and no blocker says why. -/
theorem fix_without_blocker : ∃ d, evaluateVerificationPolicy fixRuntime ⟨some 0, fixText⟩ ⟨some 0, ""⟩ none = some d ∧
    d.outcome = .repairNeeded ∧ d.reviewBlocker = none ∧ d.testBlocker = none ∧ d.repoBlocker = none ∧ ¬ Agrees d := by
  have hrun : (evaluateVerificationPolicy fixRuntime ⟨some 0, fixText⟩ ⟨some 0, ""⟩ none).any (fun d =>
      decide (d.outcome = .repairNeeded ∧ d.reviewBlocker = none ∧ d.testBlocker = none ∧ d.repoBlocker = none)) = true := by
    decide +kernel
  obtain ⟨d, hd, hout⟩ := (Option.any_eq_true _ _).mp hrun
  obtain ⟨houtcome, hreview, htest, hrepo⟩ := of_decide_eq_true hout
  refine ⟨d, hd, houtcome, hreview, htest, hrepo, fun hagrees => ?_⟩
  have hpass := hagrees.outcome.mpr ⟨hreview, htest, hrepo⟩
  rw [houtcome] at hpass
  cases hpass

end BlockerAgreement
