import Mathlib.Data.List.Perm.Basic
import Mathlib.Data.String.Basic
import TandemAgents.AutoMerge
import TandemAgents.JsonRoundTrip
import TandemAgents.PrRefresh
import TandemAgents.PurePath

/-!
# The signature of the feedback

Feedback counts as unchanged where its signature is. The signature spells the head branch
and a few fields of each item, sorted, and hashes the text. Reordered feedback is spelled
the same; but so are two failing checks that differ in a field the signature does not read.
-/
namespace FeedbackSignature

open PythonText JsonData PullRequests RepairBreaker

set_option maxRecDepth 20000

/-! ## Collecting the feedback -/

/-- An item of the feedback. -/
inductive FeedbackItem where
  | requestedChanges (author body url : String)
  | reviewComment (author body path : String) (line : Option Int) (url : String)
  | checkFailure (name state workflow summary url : String)
  deriving DecidableEq

def FeedbackItem.toDict : FeedbackItem → Dict
  | requestedChanges author body url =>
    [("kind", .str "requested_changes"), ("author", .str author), ("body", .str body), ("url", .str url)]
  | reviewComment author body path line url =>
    [("kind", .str "review_comment"), ("author", .str author), ("body", .str body), ("path", .str path),
      ("line", line.elim .null .int), ("url", .str url)]
  | checkFailure name state workflow summary url =>
    [("kind", .str "check_failure"), ("name", .str name), ("state", .str state), ("workflow", .str workflow),
      ("summary", .str summary), ("url", .str url)]

section
variable (py : Runtime)

/-- The first of the keys under which something is left, read as a text and stripped. -/
def firstStripped (d : Dict) (keys : List String) : String :=
  ((keys.map (fun key => strip (py.text (d.get key)))).find? (fun text => decide (text ≠ ""))).getD ""

/-- `_github_actor_name`. -/
def githubActorName (value : Json) : String :=
  orElse ((value.asDict.map (fun d => firstStripped py d ["login", "name", "email"])).getD "") (strip (py.text value))

/-- `_review_comment_url`. -/
def reviewCommentUrl (comment : Dict) : String := firstStripped py comment ["html_url", "url", "web_url"]

/-- `value is True`. -/
def isTrue : Json → Bool
  | .bool true => true
  | _ => false

/-- `_review_comment_is_stale`. -/
def reviewCommentIsStale (comment : Dict) : Bool :=
  ["isResolved", "resolved", "outdated", "isOutdated", "stale", "isStale"].any (fun key => isTrue (comment.get key)) ||
    decide (statusKey py ((comment.get "state").or (comment.get "status")) ∈ ["resolved", "outdated", "stale", "dismissed"])

/-- `_review_comment_line`. -/
def reviewCommentLine (comment : Dict) : Option Int :=
  ["line", "original_line", "originalLine", "position"].findSome? (fun key => py.int (comment.get key))

/-- The items of the reviews. -/
def requestedChanges (review : Dict) : Option FeedbackItem :=
  let body := firstStripped py review ["body", "bodyText", "summary", "text"]
  if statusKey py ((review.get "state").or (review.get "status")) ∉ ["changes_requested", "requested_changes"] then none
  else if body = "" then none
  else some (.requestedChanges (githubActorName py ((review.get "user").or (review.get "author"))) body
    (reviewCommentUrl py review))

/-- The items of the review comments. -/
def reviewComment (comment : Dict) : Option FeedbackItem :=
  let body := firstStripped py comment ["body", "bodyText", "text"]
  if reviewCommentIsStale py comment then none
  else if body = "" then none
  else some (.reviewComment (githubActorName py ((comment.get "user").or (comment.get "author"))) body
    (firstStripped py comment ["path", "file", "filePath"]) (reviewCommentLine py comment) (reviewCommentUrl py comment))

/-- `str(check.get(a) or check.get(b) or ...).strip()`. -/
def firstField (check : Dict) (keys : List String) (default : Json) : String :=
  strip (py.text (keys.foldr (fun key rest => (check.get key).or rest) default))

/-- `_failed_checks_from_pr`. -/
def failedChecksFromPr (pr : Dict) : List FeedbackItem :=
  (pullRequestCheckEntries py pr).filterMap fun check =>
    let conclusion := readState py check
    if conclusion ∉ failedWords then none
    else some (.checkFailure (firstField py check ["name", "context", "title"] (.str "check")) conclusion
      (firstField py check ["workflowName", "workflow"] (.str ""))
      (firstField py check ["summary", "details", "output"] (.str ""))
      (firstField py check ["detailsUrl", "details_url", "url"] (.str "")))

/-- The answer of `collect_pull_request_repair_context`. -/
structure RepairContext where
  actionable : Bool
  reason : String
  pullRequest : Dict
  feedbackItems : List FeedbackItem
  truncated : Bool

def RepairContext.toDict (c : RepairContext) : Dict :=
  [("actionable", .bool c.actionable), ("reason", .str c.reason), ("pull_request", .obj c.pullRequest),
    ("feedback_items", .arr (c.feedbackItems.map (fun item => .obj item.toDict))), ("truncated", .bool c.truncated)]

/-- What GitHub answers: the pull request, its reviews and its review comments. -/
structure Fetched where
  pr : Dict
  reviews : List Dict
  comments : List Dict

/-- `collect_pull_request_repair_context`, with the slug of the configuration. -/
def collectPullRequestRepairContext (slug : String) (pullRequest : Dict) (limit : Int) (f : Fetched) : RepairContext :=
  let baseRepo := strip (py.text ((pullRequest.get "base_repo").or (.str slug)))
  if baseRepo = "" ∨ '/' ∉ baseRepo.toList ∨ PrRefresh.isMissing (pullRequest.get "number") then
    ⟨false, "missing_pull_request_identity", pullRequest, [], false⟩
  else
    let lifecycle := normalizePullRequestMetadata py f.pr (py.text (pullRequest.get "head_branch")) baseRepo
      (py.text (pullRequest.get "base_branch"))
    let items := f.reviews.filterMap (requestedChanges py) ++ f.comments.filterMap (reviewComment py) ++
      failedChecksFromPr py f.pr
    let bounded := items.take (max 1 limit).toNat
    ⟨!bounded.isEmpty, if bounded.isEmpty then "no_actionable_review_feedback" else "", PrRefresh.toDict lifecycle,
      bounded, decide (bounded.length < items.length)⟩

/-! ## What the signature reads -/

/-- The fields of an item that go into the signature. -/
structure Reading where
  kind : String
  url : String
  path : String := ""
  line : String := ""
  body : String := ""
  deriving DecidableEq

/-- `str(line or "")`. -/
def lineText : Option Int → String
  | none => ""
  | some n => if n = 0 then "" else toString n

/-- A failing check has no path, no line and no body. -/
def FeedbackItem.reading : FeedbackItem → Reading
  | requestedChanges _ body url => { kind := "requested_changes", url := url, body := body }
  | reviewComment _ body path line url => ⟨"review_comment", url, path, lineText line, body⟩
  | checkFailure _ _ _ _ url => { kind := "check_failure", url := url }

/-- The item without the names of its author and its workflow. -/
def FeedbackItem.shown : FeedbackItem → FeedbackItem
  | requestedChanges _ body url => requestedChanges "" body url
  | reviewComment _ body path line url => reviewComment "" body path line url
  | checkFailure name state _ summary url => checkFailure name state "" summary url

def RepairContext.head (c : RepairContext) : String := py.text (c.pullRequest.get "head_branch")

/-- The line of an item. -/
def Reading.spell (digests : Digests) (r : Reading) : String :=
  String.intercalate "|" [r.kind, r.url, r.path, r.line, digests.sha1 r.body]

/-- The text that is hashed. -/
def spelling (digests : Digests) (head : String) (rs : List Reading) : String :=
  head ++ "\n" ++ String.intercalate "\n" ((rs.map (Reading.spell digests)).mergeSort (fun a b => decide (a ≤ b)))

def RepairContext.spelled (digests : Digests) (c : RepairContext) : String :=
  spelling digests (c.head py) (c.feedbackItems.map (·.reading))

/-- The same head branch, and the same items in some order. -/
def SameFeedback (c d : RepairContext) : Prop :=
  c.head py = d.head py ∧ (c.feedbackItems.map (·.shown)).Perm (d.feedbackItems.map (·.shown))

/-- The same head branch, and items of which the same is read, in some order. -/
def SameReadings (c d : RepairContext) : Prop :=
  c.head py = d.head py ∧ (c.feedbackItems.map (·.reading)).Perm (d.feedbackItems.map (·.reading))

/-- Feedback is taken for unchanged exactly if it is. -/
def Faithful (digests : Digests) (c d : RepairContext) : Prop :=
  repairSignature py.toPython digests c.toDict = repairSignature py.toPython digests d.toDict ↔ SameFeedback py c d

/-- Other fields come out as the same text. -/
def Confused (digests : Digests) (c d : RepairContext) : Prop :=
  c.spelled py digests = d.spelled py digests ∧ ¬ SameReadings py c d

/-- The same is read of other items. -/
def Overlooked (c d : RepairContext) : Prop := SameReadings py c d ∧ ¬ SameFeedback py c d

end

/-! ## The text behind the signature -/

section
variable {py : Runtime} {digests : Digests} {c d : RepairContext}

theorem text_line (py : Python) (line : Option Int) : py.text (line.elim .null .int) = lineText line := by
  cases line with
  | none => rfl
  | some n => by_cases h : n = 0 <;> simp [Python.text, Json.truthy, Python.str, lineText, h]

theorem signaturePart_toDict (item : FeedbackItem) :
    signaturePart py.toPython digests item.toDict = item.reading.spell digests := by
  have hnull : py.text .null = "" := rfl
  cases item <;> simp [signaturePart, FeedbackItem.toDict, FeedbackItem.reading, Reading.spell, Dict.get_cons,
    Python.text_str, text_line, hnull]

theorem repairSignature_toDict (c : RepairContext) :
    repairSignature py.toPython digests c.toDict = digests.sha256 (c.spelled py digests) := by
  have hitems : (c.toDict.get "feedback_items").dicts = c.feedbackItems.map (·.toDict) := by
    have hget : c.toDict.get "feedback_items" = .arr (c.feedbackItems.map (fun item => .obj item.toDict)) := by
      simp [RepairContext.toDict, Dict.get_cons]
    rw [hget, Json.dicts, Json.asList, Option.getD_some, List.filterMap_map]
    exact List.filterMap_eq_map_iff_forall_eq_some.mpr fun _ _ => rfl
  have hpr : (c.toDict.get "pull_request").asDict.getD [] = c.pullRequest := by
    simp [RepairContext.toDict, Dict.get_cons, Json.asDict]
  rw [repairSignature, hitems, hpr, List.map_map]
  simp only [Function.comp_def, signaturePart_toDict]
  simp [RepairContext.spelled, spelling, RepairContext.head, Function.comp_def]

/-- Sorted, two lists of texts are the same where one is the other in another order. -/
theorem mergeSort_perm_eq {xs ys : List String} (h : xs.Perm ys) :
    xs.mergeSort (fun a b => decide (a ≤ b)) = ys.mergeSort (fun a b => decide (a ≤ b)) := by
  have hsorted : ∀ l : List String, (l.mergeSort (fun a b => decide (a ≤ b))).Pairwise (· ≤ ·) := by
    intro l
    have hbool : (l.mergeSort (fun a b => decide (a ≤ b))).Pairwise (fun a b => decide (a ≤ b) = true) :=
      List.pairwise_mergeSort
        (fun a b c hab hbc => by simpa using le_trans (of_decide_eq_true hab) (of_decide_eq_true hbc))
        (fun a b => by simpa using le_total a b) l
    simpa only [decide_eq_true_eq] using hbool
  exact List.Perm.eq_of_pairwise (fun _ _ _ _ => le_antisymm) (hsorted xs) (hsorted ys)
    ((List.mergeSort_perm xs _).trans (h.trans (List.mergeSort_perm ys _).symm))

/-- What is read decides the text. -/
theorem SameReadings.spelled (h : SameReadings py c d) : c.spelled py digests = d.spelled py digests := by
  rw [RepairContext.spelled, RepairContext.spelled, spelling, spelling, h.1,
    mergeSort_perm_eq (h.2.map (Reading.spell digests))]

theorem reading_shown (item : FeedbackItem) : item.shown.reading = item.reading := by cases item <;> rfl

theorem SameFeedback.readings (h : SameFeedback py c d) : SameReadings py c d := by
  refine ⟨h.1, ?_⟩
  simpa [List.map_map, Function.comp_def, reading_shown] using h.2.map (·.reading)

end

/-! ## Separators -/

section
variable {py : Runtime} {digests : Digests} {c d : RepairContext}

/-- Neither of the two separators is in the text. -/
def Plain (text : String) : Prop := '\n' ∉ text.toList ∧ '|' ∉ text.toList

/-- No separator stands in the head branch, a url or a path. -/
structure Clean (py : Runtime) (c : RepairContext) : Prop where
  head : '\n' ∉ (c.head py).toList
  fields : ∀ item ∈ c.feedbackItems, Plain item.reading.url ∧ Plain item.reading.path

/-- The fields of a line as they are joined. -/
def Reading.fields (digests : Digests) (r : Reading) : List String := [r.kind, r.url, r.path, r.line, digests.sha1 r.body]

theorem plain_lineText (line : Option Int) : Plain (lineText line) := by
  cases line with
  | none => constructor <;> simp [lineText]
  | some n =>
    rw [lineText]
    split
    · constructor <;> simp
    · have hatom := JsonRoundTrip.atomChar_int n
      constructor
      · intro h
        exact absurd (hatom _ h) (by decide)
      · intro h
        exact absurd (hatom _ h) (by decide)

theorem plain_kind (item : FeedbackItem) : Plain item.reading.kind := by
  cases item <;> constructor <;> simp [FeedbackItem.reading]

theorem plain_line (item : FeedbackItem) : Plain item.reading.line := by
  cases item with
  | reviewComment author body path line url => exact plain_lineText line
  | _ => exact plain_lineText none

/-- The fields of a clean item, where a digest has no separator either. -/
theorem plain_fields (hhex : ∀ s, Plain (digests.sha1 s)) {item : FeedbackItem}
    (h : Plain item.reading.url ∧ Plain item.reading.path) : ∀ text ∈ item.reading.fields digests, Plain text := by
  intro text ht
  simp only [Reading.fields, List.mem_cons, List.not_mem_nil, or_false] at ht
  rcases ht with rfl | rfl | rfl | rfl | rfl
  · exact plain_kind item
  · exact h.1
  · exact h.2
  · exact plain_line item
  · exact hhex _

theorem toList_spell (r : Reading) :
    (r.spell digests).toList = ['|'].intercalate ((r.fields digests).map String.toList) := by
  rw [Reading.spell, String.toList_intercalate]
  rfl

/-- The fields of a clean line are read back from it. -/
theorem splitOn_spell {r : Reading} (h : ∀ text ∈ r.fields digests, Plain text) :
    (r.spell digests).toList.splitOn '|' = (r.fields digests).map String.toList := by
  rw [toList_spell, List.splitOn_intercalate]
  · intro l hl
    obtain ⟨text, ht, rfl⟩ := List.mem_map.mp hl
    exact (h text ht).2
  · simp [Reading.fields]

/-- A clean line is one line, and not an empty one. -/
theorem newline_spell {r : Reading} (h : ∀ text ∈ r.fields digests, Plain text) :
    '\n' ∉ (r.spell digests).toList ∧ (r.spell digests).toList ≠ [] := by
  rw [toList_spell]
  constructor
  · intro hmem
    rcases PurePath.mem_intercalate hmem with hsep | ⟨l, hl, hx⟩
    · exact absurd hsep (by decide)
    · obtain ⟨text, ht, rfl⟩ := List.mem_map.mp hl
      exact (h text ht).1 hx
  · simp [Reading.fields, List.intercalate_cons_cons]

/-- Clean lines that are the same in some order come from the same readings. -/
theorem readings_of_spells {rs qs : List Reading} (hinj : Function.Injective digests.sha1)
    (hr : ∀ r ∈ rs, ∀ text ∈ r.fields digests, Plain text) (hq : ∀ q ∈ qs, ∀ text ∈ q.fields digests, Plain text)
    (h : (rs.map (Reading.spell digests)).Perm (qs.map (Reading.spell digests))) : rs.Perm qs := by
  have hfields : ∀ l : List Reading, (∀ r ∈ l, ∀ text ∈ r.fields digests, Plain text) →
      (l.map (Reading.spell digests)).map (fun s => s.toList.splitOn '|') =
        l.map (fun r => (r.fields digests).map String.toList) := by
    intro l hl
    rw [List.map_map]
    exact List.map_congr_left fun r hmem => splitOn_spell (hl r hmem)
  have hperm := h.map (fun s => s.toList.splitOn '|')
  rw [hfields rs hr, hfields qs hq] at hperm
  refine (List.map_perm_map_iff ?_).mp hperm
  intro a b hab
  obtain ⟨k, u, p, l, t⟩ := a
  obtain ⟨k', u', p', l', t'⟩ := b
  simp only [Reading.fields, List.map_cons, List.map_nil, List.cons.injEq, String.toList_inj, and_true] at hab
  obtain ⟨rfl, rfl, rfl, rfl, ht⟩ := hab
  rw [hinj ht]

/-- The lines behind the head branch; without an item there is an empty one. -/
def linesOf (sorted : List String) : List (List Char) := if sorted = [] then [[]] else sorted.map String.toList

theorem toList_spelling (head : String) (rs : List Reading) : (spelling digests head rs).toList = ['\n'].intercalate
    (head.toList :: linesOf ((rs.map (Reading.spell digests)).mergeSort (fun a b => decide (a ≤ b)))) := by
  rw [spelling, String.toList_append, String.toList_append, String.toList_intercalate]
  cases (rs.map (Reading.spell digests)).mergeSort (fun a b => decide (a ≤ b)) with
  | nil => simp [linesOf, List.intercalate_cons_cons]
  | cons x xs => simp [linesOf, List.intercalate_cons_cons]

theorem linesOf_inj {xs ys : List String} (hx : ∀ x ∈ xs, x.toList ≠ []) (hy : ∀ y ∈ ys, y.toList ≠ [])
    (h : linesOf xs = linesOf ys) : xs = ys := by
  unfold linesOf at h
  split_ifs at h with hxs hys hys
  · rw [hxs, hys]
  · have hmem : [] ∈ ys.map String.toList := by simp [← h]
    obtain ⟨y, hmem, hnil⟩ := List.mem_map.mp hmem
    exact absurd hnil (hy y hmem)
  · have hmem : [] ∈ xs.map String.toList := by simp [h]
    obtain ⟨x, hmem, hnil⟩ := List.mem_map.mp hmem
    exact absurd hnil (hx x hmem)
  · exact List.map_injective_iff.mpr (fun a b hab => String.toList_inj.mp hab) h

/-- The sorted lines of clean items. -/
theorem lines_clean (hhex : ∀ s, Plain (digests.sha1 s)) (hc : Clean py c) :
    ∀ x ∈ ((c.feedbackItems.map (·.reading)).map (Reading.spell digests)).mergeSort (fun a b => decide (a ≤ b)),
      '\n' ∉ x.toList ∧ x.toList ≠ [] := by
  intro x hx
  rw [List.mem_mergeSort, List.map_map] at hx
  obtain ⟨item, hitem, rfl⟩ := List.mem_map.mp hx
  exact newline_spell (plain_fields hhex (hc.fields item hitem))

theorem split_spelled (hhex : ∀ s, Plain (digests.sha1 s)) (hc : Clean py c) :
    (c.spelled py digests).toList.splitOn '\n' = (c.head py).toList ::
      linesOf (((c.feedbackItems.map (·.reading)).map (Reading.spell digests)).mergeSort (fun a b => decide (a ≤ b))) := by
  rw [RepairContext.spelled, toList_spelling, List.splitOn_intercalate]
  · intro l hl
    rcases List.mem_cons.mp hl with rfl | hl
    · exact hc.head
    · unfold linesOf at hl
      split at hl
      · rw [List.mem_singleton.mp hl]
        exact List.not_mem_nil
      · obtain ⟨x, hx, rfl⟩ := List.mem_map.mp hl
        exact (lines_clean hhex hc x hx).1
  · simp

/-- Without separators in them the fields are never confused. -/
theorem clean_not_confused (hinj : Function.Injective digests.sha1) (hhex : ∀ s, Plain (digests.sha1 s))
    (hc : Clean py c) (hd : Clean py d) : ¬ Confused py digests c d := by
  rintro ⟨hspelled, hnot⟩
  have hsplit := congrArg (fun s : String => s.toList.splitOn '\n') hspelled
  simp only [split_spelled hhex hc, split_spelled hhex hd, List.cons.injEq, String.toList_inj] at hsplit
  have hsorted := linesOf_inj (fun x hx => (lines_clean hhex hc x hx).2) (fun x hx => (lines_clean hhex hd x hx).2) hsplit.2
  refine hnot ⟨hsplit.1, ?_⟩
  refine readings_of_spells hinj ?_ ?_ ?_
  · intro r hr
    obtain ⟨item, hitem, rfl⟩ := List.mem_map.mp hr
    exact plain_fields hhex (hc.fields item hitem)
  · intro r hr
    obtain ⟨item, hitem, rfl⟩ := List.mem_map.mp hr
    exact plain_fields hhex (hd.fields item hitem)
  · have hperm := List.mergeSort_perm ((c.feedbackItems.map (·.reading)).map (Reading.spell digests))
      (fun a b => decide (a ≤ b))
    rw [hsorted] at hperm
    exact hperm.symm.trans (List.mergeSort_perm _ _)

/-! ## Overlooked items -/

theorem lineText_inj {l m : Option Int} (h : lineText l = lineText m) : l = m ∨ (∀ n ∈ l, n = 0) ∧ ∀ n ∈ m, n = 0 := by
  have hne : ∀ n : Int, n ≠ 0 → lineText (some n) ≠ "" := by
    intro n hn hempty
    rw [lineText, if_neg hn] at hempty
    have hread := JsonRoundTrip.readInt_toString n
    rw [hempty] at hread
    cases hread
  rcases l with _ | n <;> rcases m with _ | k
  · exact .inl rfl
  · by_cases hk : k = 0
    · exact .inr ⟨by simp, by simp [hk]⟩
    · exact absurd h.symm (hne k hk)
  · by_cases hn : n = 0
    · exact .inr ⟨by simp [hn], by simp⟩
    · exact absurd h (hne n hn)
  · by_cases hn : n = 0
    · by_cases hk : k = 0
      · exact .inl (by rw [hn, hk])
      · exact absurd (h.symm.trans (by simp [lineText, hn])) (hne k hk)
    · by_cases hk : k = 0
      · exact absurd (h.trans (by simp [lineText, hk])) (hne n hn)
      · rw [lineText, lineText, if_neg hn, if_neg hk] at h
        have hread := JsonRoundTrip.readInt_toString n
        rw [h, JsonRoundTrip.readInt_toString] at hread
        exact .inl (congrArg some (Option.some.inj hread).symm)

/-- Two items of which the same is read differ in failing checks only, or in a line that is `0` in
one and missing in the other. -/
theorem shown_of_reading {i j : FeedbackItem} (h : i.reading = j.reading) : i.shown = j.shown ∨
    (∃ n s w t n' s' w' t' u, i = .checkFailure n s w t u ∧ j = .checkFailure n' s' w' t' u) ∨
    ∃ a a' b p l l' u, i = .reviewComment a b p l u ∧ j = .reviewComment a' b p l' u ∧
      (∀ n ∈ l, n = 0) ∧ ∀ n ∈ l', n = 0 := by
  have hkinds : ("requested_changes" : String) ≠ "review_comment" ∧ ("requested_changes" : String) ≠ "check_failure" ∧
      ("review_comment" : String) ≠ "check_failure" := by decide
  cases i <;> cases j <;> simp only [FeedbackItem.reading, Reading.mk.injEq] at h
  case requestedChanges.requestedChanges => exact .inl (by simp [FeedbackItem.shown, h])
  case reviewComment.reviewComment a b p l u a' b' p' l' u' =>
    obtain ⟨-, rfl, rfl, hline, rfl⟩ := h
    rcases lineText_inj hline with rfl | hzero
    · exact .inl rfl
    · exact .inr (.inr ⟨a, a', b, p, l, l', u, rfl, rfl, hzero⟩)
  case checkFailure.checkFailure n s w t u n' s' w' t' u' =>
    obtain ⟨-, rfl, -⟩ := h
    exact .inr (.inl ⟨n, s, w, t, n', s', w', t', u, rfl, rfl⟩)
  all_goals
    exact absurd h.1 (by simp [hkinds.1, hkinds.2.1, hkinds.2.2, hkinds.1.symm, hkinds.2.1.symm, hkinds.2.2.symm])

end

/-! ## A failing check that fails differently -/

/-- The text itself in the place of a digest. -/
def textDigests : Digests := ⟨id, id⟩

/-- What is collected where one check failed, with its summary. -/
def checkContext (summary : String) : RepairContext :=
  collectPullRequestRepairContext AutoMerge.asciiRuntime "acme/app" [("number", .int 7)] 12
    ⟨[("check_runs", .arr [.obj [("name", .str "tests"), ("conclusion", .str "failure"), ("summary", .str summary),
      ("url", .str "https://ci.acme/1")]])], [], []⟩

/-- Two comments, in the order in which they are listed. -/
def commentContext (lines : List Int) : RepairContext :=
  ⟨true, "", [("head_branch", .str "aca/fix")],
    lines.map (fun n => .reviewComment "ann" "rename this" "src/app.py" (some n) "https://acme/c"), false⟩

/-- The text in hexadecimal in the place of a digest. -/
def hexDigests : Digests := ⟨fun s => ByteFields.hex s.toByteArray.data.toList, id⟩

theorem hexDigests_injective : Function.Injective hexDigests.sha1 := by
  intro a b h
  have hbytes := congrArg ByteFields.fromHex h
  simp only [hexDigests, ByteFields.fromHex_hex, Option.some.injEq] at hbytes
  exact String.toByteArray_inj.mp (ByteArray.ext (Array.toList_inj.mp hbytes))

theorem hexDigests_plain (s : String) : Plain (hexDigests.sha1 s) := by
  have hdigit : ∀ c ∈ (hexDigests.sha1 s).toList, (ByteFields.hexValue c).isSome = true := by
    intro c hc
    simp only [hexDigests, ByteFields.hex, String.toList_ofList, ByteFields.hexChars, List.mem_flatMap] at hc
    obtain ⟨byte, -, hc⟩ := hc
    have hbyte : byte.toNat < 256 := byte.toNat_lt
    simp only [List.mem_cons, List.not_mem_nil, or_false] at hc
    rcases hc with rfl | rfl <;> rw [(ByteFields.hexDigit_read _ (by omega)).1] <;> rfl
  exact ⟨fun h => absurd (hdigit _ h) (by decide), fun h => absurd (hdigit _ h) (by decide)⟩

theorem commentContext_clean (lines : List Int) : Clean AutoMerge.asciiRuntime (commentContext lines) where
  head := by
    have hhead : '\n' ∉ ((commentContext []).head AutoMerge.asciiRuntime).toList := by decide +kernel
    exact hhead
  fields item hitem := by
    have hplain : Plain "https://acme/c" ∧ Plain "src/app.py" := by constructor <;> constructor <;> decide
    obtain ⟨n, -, rfl⟩ := List.mem_map.mp hitem
    exact hplain

theorem clean_not_confused_comments : ¬ Confused AutoMerge.asciiRuntime hexDigests (commentContext [3]) (commentContext [9]) :=
  clean_not_confused hexDigests_injective hexDigests_plain (commentContext_clean [3]) (commentContext_clean [9])

end FeedbackSignature
