import Mathlib.Data.List.Infix
import TandemAgents.LinearUpdates

/-!
# Commenting on a Linear issue

An attempt to dispatch a comment posts it first and then reads the issue's comments back,
once and without asking for further pages. The creation counts as verified where one of the
comments read back names the run. What is on the issue is a function of whatever answers the
engine; a call that is refused may have posted all the same.
-/
namespace LinearComments

open PythonText JsonData JsonText Effects LinearTool LinearUpdates DispatchTick Outbox

set_option maxRecDepth 20000

/-! ## Posting and reading back -/

section
variable {σ : Type} (py : PullRequests.Runtime) (floats : Floats) (q : Remote) (server : String) (E : Engine σ)

def createAliases : List String := ["create_comment", "save_comment", "add_comment"]

/-- The shapes a comment is offered in. -/
def commentOffers (issueId body : String) : List Dict :=
  [[("issueId", .str issueId), ("body", .str body)], [("issueId", .str issueId), ("comment", .str body)],
    [("issue_id", .str issueId), ("body", .str body)], [("id", .str issueId), ("body", .str body)],
    [("issue_id", .str issueId), ("comment", .str body)]]

/-- `linear_add_comment`: a warning, or none. -/
def linearAddComment (task : Dict) (body : String) : Act σ (Option String) := do
  let issueId ← lift (issueIdOf py.toPython q.dict task)
  if issueId = "" then return some "No linked Linear issue metadata available for comment sync."
  else if strip body = "" then return none
  else
    match ← firstAnswer py.toPython server E createAliases (commentOffers issueId (strip body)) "Linear comment creation failed." with
    | .ok _ => return none
    | .error text => throw (.runtime text)

def listOffers (issueId : String) : List Dict := [[("issueId", .str issueId)], [("issue_id", .str issueId)], [("id", .str issueId)]]

def commentKeys : List String := ["comments", "items", "nodes", "data", "results"]

/-- `linear_list_comments`: what one answer holds. -/
def linearListComments (task : Dict) : Act σ (List Dict) := do
  let issueId ← lift (issueIdOf py.toPython q.dict task)
  if issueId = "" then return []
  else
    match ← firstAnswer py.toPython server E ["list_comments"] (listOffers issueId) "Linear comment listing failed." with
    | .ok result => return (toolResultPayloads floats result).flatMap fun payload => flattenEntries payload commentKeys
    | .error text => throw (.runtime text)

/-- `marker in body`. -/
def mentions (marker : String) (comment : Dict) : Bool :=
  decide (marker.toList <:+: (py.text (((comment.get "body").or (comment.get "text")).or (comment.get "content"))).toList)

/-- `linear_comment_marker_present`. -/
def linearCommentMarkerPresent (task : Dict) (marker : String) : Act σ Bool := do
  if strip marker = "" then return false
  else
    let comments ← linearListComments py floats q server E task
    return comments.any (mentions py (strip marker))

/-! ## An attempt -/

/-- The comment of a row. -/
def commentBody (row : OutboxRow) (task : Dict) : String := orElse (field py q row "body") (q.linearCommentBody (q.payload row) task)

def unverified : String := "Linear comment creation could not be verified by reading the run marker back from Linear."

/-- `_dispatch_linear_comment`. -/
def dispatchLinearComment (row : OutboxRow) : Act σ Dict := do
  let task ← lift (taskWithRun q row)
  let body := commentBody py q row task
  if strip body = "" then return failedReply q row "Outbox payload missing Linear comment body." []
  else
    let warning ← linearAddComment py q server E task body
    if warning.getD "" ≠ "" then return failedReply q row (warning.getD "") []
    else
      let marker := field py q row "run_id"
      if marker = "" then return dispatchedReply q row []
      else
        let present ← linearCommentMarkerPresent py floats q server E task marker
        if present then return dispatchedReply q row [] else return failedReply q row unverified []

/-- What a tick makes of an attempt: a row is completed, given up, or kept for another attempt. -/
inductive Settlement where
  | dispatched
  | failed (error : String)
  | retry (error : String)
  deriving DecidableEq

def settlement : EStateM.Result Refusal (World σ) Dict → Settlement
  | .ok result _ =>
    if (result.get "status").asStr = some "dispatched" then .dispatched else .failed ((result.get "error").asStr.getD "")
  | .error e _ => .retry e.text

/-- One attempt, from whatever state the engine is in: how it is settled, and the state behind it. -/
def attempt (row : OutboxRow) (s : σ) : Settlement × World σ :=
  let r := dispatchLinearComment py floats q server E row ⟨s, []⟩
  (settlement r, endState r)

/-- Up to `n` attempts, with others at work before each of them, until one is not kept for another. -/
def deliver (between : Nat → σ → σ) (row : OutboxRow) : Nat → σ → Option Settlement × σ
  | 0, s => (none, s)
  | n + 1, s =>
    match attempt py floats q server E row (between n s) with
    | (.retry _, w) => deliver between row n w.engine
    | (settled, w) => (some settled, w.engine)

end

/-! ## The comments on the issue -/

/-- The comment that the arguments of a call ask for. -/
def asksComment (args : Dict) : Option String := ((args.get "body").or (args.get "comment")).asStr

/-- What is on the issue: a call that is accepted posts the comment it asks for, one that is refused
posts it or not, and nothing else posts anything. -/
structure Thread {σ : Type} (py : Python) (E : Engine σ) (posts : σ → List String) : Prop where
  toolIds : ∀ s, posts (E.toolIds s).2 = posts s
  servers : ∀ s, posts (E.servers s).2 = posts s
  asked : ∀ tool args s body result s', asksComment args = some body → E.run tool args s = (.ok result, s') →
    toolFailed py result = false → posts s' = posts s ++ [body]
  refused : ∀ tool args s body, asksComment args = some body →
    posts (E.run tool args s).2 = posts s ∨ posts (E.run tool args s).2 = posts s ++ [body]
  other : ∀ tool args s, asksComment args = none → posts (E.run tool args s).2 = posts s

section
variable {σ : Type} {py : PullRequests.Runtime} {floats : Floats} {q : Remote} {server : String} {E : Engine σ}
  {posts : σ → List String}

/-- The issue holds what it held, and some copies of a comment. -/
def Copies (posts : σ → List String) (start : List String) (body : String) (least : Nat) (w : World σ) : Prop :=
  ∃ k, least ≤ k ∧ posts w.engine = start ++ List.replicate k body

theorem ask_copies {α : Type} {f : σ → Except Refusal α × σ} (hf : ∀ s, posts (f s).2 = posts s) (start : List String)
    (body : String) (least : Nat) : Keeps (Copies posts start body least) (ask f) := by
  rintro w ⟨k, hk, hw⟩
  have hs := hf w.engine
  unfold ask
  rcases hr : f w.engine with ⟨_ | _, s⟩ <;> rw [hr] at hs <;> exact ⟨k, hk, hs.trans hw⟩

theorem run_copies (h : Thread py.toPython E posts) {args : Dict} {body : String} (hargs : asksComment args = some body)
    (start : List String) (tool : String) :
    Leads (Copies posts start body 0) (executeEngineTool py.toPython E tool args)
      (fun result w => if toolFailed py.toPython result then Copies posts start body 0 w else Copies posts start body 1 w)
      (fun _ => Copies posts start body 0) := by
  rintro w ⟨k, -, hw⟩
  have hmaybe := h.refused tool args w.engine body hargs
  have hsure := h.asked tool args w.engine body
  have hmore : ∀ {s' : σ}, posts s' = posts w.engine ++ [body] → posts s' = start ++ List.replicate (k + 1) body := by
    intro s' hs'
    rw [hs', hw, List.append_assoc, List.replicate_succ']
  have hcopies : ∀ {s' : σ} {calls : List LinearTool.Call}, (posts s' = posts w.engine ∨ posts s' = posts w.engine ++ [body]) →
      Copies posts start body 0 ⟨s', calls⟩ := by
    rintro s' calls (hs' | hs')
    · exact ⟨k, Nat.zero_le k, hs'.trans hw⟩
    · exact ⟨k + 1, Nat.zero_le (k + 1), hmore hs'⟩
  simp only [executeEngineTool]
  rcases hr : E.run tool args w.engine with ⟨e | result, s'⟩
  · rw [hr] at hmaybe
    exact hcopies hmaybe
  · rw [hr] at hmaybe
    cases hfailed : toolFailed py.toPython result with
    | true =>
      simp only [hfailed, if_true]
      exact hcopies hmaybe
    | false =>
      simp only [hfailed]
      exact ⟨k + 1, Nat.le_add_left 1 k, hmore (hsure result s' hargs hr hfailed)⟩

/-- A creation that answers has posted the comment, once or more often; one that raises may have. -/
theorem create_copies (h : Thread py.toPython E posts) {args : Dict} {body : String} (hargs : asksComment args = some body)
    (start : List String) (aliases : List String) :
    Leads (Copies posts start body 0) (executeLinearTool py.toPython server E aliases args) (fun _ => Copies posts start body 1)
      (fun _ => Copies posts start body 0) :=
  executeLinearTool_leads (ask_copies h.toolIds start body 0) (ask_copies h.servers start body 0) (run_copies h hargs start) aliases

/-- A listing posts nothing. -/
theorem list_copies (h : Thread py.toPython E posts) {args : Dict} (hargs : asksComment args = none) (start : List String)
    (body : String) (least : Nat) (aliases : List String) :
    Leads (Copies posts start body least) (executeLinearTool py.toPython server E aliases args)
      (fun _ => Copies posts start body least) (fun _ => Copies posts start body least) := by
  apply executeLinearTool_leads (ask_copies h.toolIds start body least) (ask_copies h.servers start body least)
  rintro tool w ⟨k, hk, hw⟩
  have hother := h.other tool args w.engine hargs
  simp only [executeEngineTool]
  rcases hr : E.run tool args w.engine with ⟨e | result, s'⟩
  · rw [hr] at hother
    exact ⟨k, hk, hother.trans hw⟩
  · rw [hr] at hother
    simp only [ite_self]
    exact ⟨k, hk, hother.trans hw⟩

theorem offers_ask {issueId body : String} (hbody : body ≠ "") : ∀ args ∈ commentOffers issueId body, asksComment args = some body := by
  intro args hargs
  simp only [commentOffers, List.mem_cons, List.not_mem_nil, or_false] at hargs
  rcases hargs with rfl | rfl | rfl | rfl | rfl <;>
    simp [asksComment, Dict.get_cons, Json.or, Json.asStr, Json.truthy, hbody]

theorem listings_ask (issueId : String) : ∀ args ∈ listOffers issueId, asksComment args = none := by
  intro args hargs
  simp only [listOffers, List.mem_cons, List.not_mem_nil, or_false] at hargs
  rcases hargs with rfl | rfl | rfl <;> rfl

/-- An addition without a warning posted the comment. -/
theorem linearAddComment_copies (h : Thread py.toPython E posts) (start : List String) (task : Dict) {body : String}
    (hbody : strip body ≠ "") :
    Leads (Copies posts start (strip body) 0) (linearAddComment py q server E task body)
      (fun r w => r = none → Copies posts start (strip body) 1 w) (fun _ _ => True) := by
  apply Leads.bind (Leads.weaken (lift_leads _) (fun w hw => hw) (fun _ _ h => h) fun _ _ _ => trivial)
  intro issueId
  apply Leads.assume
  intro hissue
  split
  · exact Leads.pure fun w hw hr => absurd hr (Option.some_ne_none _)
  · have hcreate : ∀ args ∈ commentOffers issueId (strip body),
        Leads (Copies posts start (strip body) 0) (executeLinearTool py.toPython server E createAliases args)
          (fun _ => Copies posts start (strip body) 1) (fun _ => Copies posts start (strip body) 0) :=
      fun args hargs => create_copies h (offers_ask hbody args hargs) start createAliases
    apply Leads.bind (Leads.weaken (firstAnswer_leads hcreate "Linear comment creation failed.") (fun w hw => hw) (fun _ _ h => h) fun _ w h => h.elim)
    intro r
    cases r with
    | ok result =>
      apply Leads.pure
      rintro w ⟨args, -, hw⟩ -
      exact hw
    | error text => exact Leads.raise fun w hw => trivial

theorem linearListComments_copies (h : Thread py.toPython E posts) (start : List String) (body : String) (least : Nat) (task : Dict) :
    Keeps (Copies posts start body least) (linearListComments py floats q server E task) := by
  apply Leads.bind (lift_leads _)
  intro issueId
  apply Leads.assume
  intro hissue
  split
  · exact Leads.pure fun w hw => hw
  · have hlist : ∀ args ∈ listOffers issueId,
        Leads (Copies posts start body least) (executeLinearTool py.toPython server E ["list_comments"] args)
          (fun _ => Copies posts start body least) (fun _ => Copies posts start body least) :=
      fun args hargs => list_copies h (listings_ask issueId args hargs) start body least ["list_comments"]
    apply Leads.bind (Leads.weaken (firstAnswer_leads hlist "Linear comment listing failed.") (fun w hw => hw) (fun _ _ h => h) fun _ w h => h.elim)
    intro r
    cases r with
    | ok result =>
      apply Leads.pure
      rintro w ⟨args, -, hw⟩
      exact hw
    | error text => exact Leads.raise fun w hw => hw

end

/-! ## How an attempt is settled -/

section
variable {σ : Type} (py : PullRequests.Runtime) (floats : Floats) (q : Remote) (server : String) (E : Engine σ)

/-- The comments are read back, and one of them names the run. -/
def Found (task : Dict) (marker : String) (w : World σ) : Prop :=
  ∃ comments w', linearListComments py floats q server E task w = .ok comments w' ∧ ∃ c ∈ comments, mentions py marker c = true

/-- The comments are read back, and none of them names the run. -/
def Missing (task : Dict) (marker : String) (w : World σ) : Prop :=
  ∃ comments w', linearListComments py floats q server E task w = .ok comments w' ∧ ∀ c ∈ comments, mentions py marker c = false

/-- Reading the comments back raises. -/
def Unread (task : Dict) (w : World σ) : Prop := ∃ e w', linearListComments py floats q server E task w = .error e w'

/-- The attempt adds the comment. -/
def Adds (row : OutboxRow) (s : σ) (task : Dict) (w : World σ) : Prop :=
  taskWithRun q row = .ok task ∧ strip (commentBody py q row task) ≠ "" ∧
    linearAddComment py q server E task (commentBody py q row task) ⟨s, []⟩ = .ok none w

variable {py floats q server E} {row : OutboxRow} {s : σ} {task : Dict} {w : World σ}

theorem markerPresent_run {marker : String} (hmarker : marker ≠ "") (hstrip : strip marker = marker) (w : World σ) :
    linearCommentMarkerPresent py floats q server E task marker w =
      match linearListComments py floats q server E task w with
      | .ok comments w' => .ok (comments.any (mentions py marker)) w'
      | .error e w' => .error e w' := by
  rw [linearCommentMarkerPresent, hstrip, if_neg hmarker]
  cases hlist : linearListComments py floats q server E task w with
  | ok comments w' =>
    rw [run_bind_ok hlist]
    rfl
  | error e w' => rw [run_bind_error hlist]

/-- Behind an addition the run of the row decides, and then what is read back. -/
theorem dispatch_added (h : Adds py q server E row s task w) :
    dispatchLinearComment py floats q server E row ⟨s, []⟩ =
      if field py q row "run_id" = "" then .ok (dispatchedReply q row []) w
      else match linearListComments py floats q server E task w with
        | .ok comments w' =>
          .ok (if comments.any (mentions py (field py q row "run_id")) then dispatchedReply q row [] else failedReply q row unverified []) w'
        | .error e w' => .error e w' := by
  obtain ⟨htask, hbody, hadd⟩ := h
  have hlift : (lift (taskWithRun q row) : Act σ Dict) ⟨s, []⟩ = .ok task ⟨s, []⟩ := by
    rw [htask]
    rfl
  rw [dispatchLinearComment, run_bind_ok hlift]
  simp only [if_neg hbody]
  rw [run_bind_ok hadd]
  simp only [Option.getD_none, ne_eq, not_true_eq_false, if_false]
  by_cases hmarker : field py q row "run_id" = ""
  · rw [if_pos hmarker, if_pos hmarker]
    rfl
  · rw [if_neg hmarker, if_neg hmarker]
    have hpresent : linearCommentMarkerPresent py floats q server E task (field py q row "run_id") w = _ :=
      markerPresent_run hmarker (strip_idem _) w
    cases hlist : linearListComments py floats q server E task w with
    | ok comments w' =>
      rw [hlist] at hpresent
      rw [run_bind_ok hpresent]
      simp only
      cases comments.any (mentions py (field py q row "run_id")) <;> rfl
    | error e w' =>
      rw [hlist] at hpresent
      rw [run_bind_error hpresent]

theorem reply_dispatched (w' : World σ) : settlement (.ok (dispatchedReply q row []) w') = .dispatched := by
  rw [settlement, dispatchedReply, reply_status]
  rfl

theorem reply_failed (error : String) (w' : World σ) : settlement (.ok (failedReply q row error []) w') = .failed error := by
  rw [settlement, failedReply, reply_status]
  simp [Json.asStr, reply, Dict.get_cons]

theorem found_iff {marker : String} {comments : List Dict} {w' : World σ}
    (h : linearListComments py floats q server E task w = .ok comments w') :
    Found py floats q server E task marker w ↔ comments.any (mentions py marker) = true := by
  simp only [Found, h, EStateM.Result.ok.injEq, List.any_eq_true]
  exact ⟨fun ⟨_, _, ⟨rfl, _⟩, hc⟩ => hc, fun hc => ⟨comments, w', ⟨rfl, rfl⟩, hc⟩⟩

theorem missing_iff {marker : String} {comments : List Dict} {w' : World σ}
    (h : linearListComments py floats q server E task w = .ok comments w') :
    Missing py floats q server E task marker w ↔ comments.any (mentions py marker) = false := by
  simp only [Missing, h, EStateM.Result.ok.injEq, List.any_eq_false, Bool.not_eq_true]
  exact ⟨fun ⟨_, _, ⟨rfl, _⟩, hc⟩ => hc, fun hc => ⟨comments, w', ⟨rfl, rfl⟩, hc⟩⟩

theorem not_unread {comments : List Dict} {w' : World σ} (h : linearListComments py floats q server E task w = .ok comments w') :
    ¬ Unread py floats q server E task w := by
  rintro ⟨e, w'', he⟩
  rw [h] at he
  cases he

/-- An attempt that adds the comment is settled by what it reads back. -/
theorem attempt_added (h : Adds py q server E row s task w) :
    ((attempt py floats q server E row s).1 = .dispatched ↔
      field py q row "run_id" = "" ∨ Found py floats q server E task (field py q row "run_id") w) ∧
    ((attempt py floats q server E row s).1 = .failed unverified ↔
      field py q row "run_id" ≠ "" ∧ Missing py floats q server E task (field py q row "run_id") w) ∧
    ((∃ text, (attempt py floats q server E row s).1 = .retry text) ↔
      field py q row "run_id" ≠ "" ∧ Unread py floats q server E task w) := by
  simp only [attempt, dispatch_added h]
  by_cases hmarker : field py q row "run_id" = ""
  · rw [if_pos hmarker, reply_dispatched]
    simp [hmarker]
  · rw [if_neg hmarker]
    cases hlist : linearListComments py floats q server E task w with
    | ok comments w' =>
      rw [found_iff hlist, missing_iff hlist]
      have hread := not_unread hlist
      simp only
      cases comments.any (mentions py (field py q row "run_id")) with
      | true =>
        simp only [if_true, reply_dispatched]
        simp [hread]
      | false =>
        simp only [Bool.false_eq_true, if_false, reply_failed]
        simp [hread, hmarker]
    | error e w' => simp [settlement, hmarker, Found, Missing, Unread, hlist]

theorem linearAddComment_warning {body text : String} {w w' : World σ}
    (h : linearAddComment py q server E task body w = .ok (some text) w') : text ≠ "" := by
  obtain ⟨issueId, w₁, -, hrest⟩ := bind_eq_ok.mp h
  split at hrest
  · have htext := Option.some.inj (pure_eq_ok.mp hrest).1
    rw [← htext]
    decide
  · split at hrest
    · cases (pure_eq_ok.mp hrest).1
    · obtain ⟨r, w₂, -, hrest⟩ := bind_eq_ok.mp hrest
      cases r with
      | ok result => cases (pure_eq_ok.mp hrest).1
      | error e => cases hrest

/-- An attempt settled as dispatched has added the comment. -/
theorem adds_of_dispatched (hdispatched : (attempt py floats q server E row s).1 = .dispatched) :
    ∃ task w, Adds py q server E row s task w := by
  cases hrun : dispatchLinearComment py floats q server E row ⟨s, []⟩ with
  | error e w =>
    rw [attempt, hrun] at hdispatched
    cases hdispatched
  | ok result w =>
    rw [attempt, hrun] at hdispatched
    obtain ⟨task, w₁, hlift, hrest⟩ := bind_eq_ok.mp hrun
    obtain ⟨hsame, htask⟩ := (lift_leads (P := fun w => w = ⟨s, []⟩) (taskWithRun q row)).ok rfl hlift
    subst hsame
    split at hrest
    · rw [← (pure_eq_ok.mp hrest).1, ← (pure_eq_ok.mp hrest).2] at hdispatched
      rw [reply_failed] at hdispatched
      cases hdispatched
    · rename_i hbody
      obtain ⟨warning, w₂, hadd, hrest⟩ := bind_eq_ok.mp hrest
      split at hrest
      · rw [← (pure_eq_ok.mp hrest).1, ← (pure_eq_ok.mp hrest).2] at hdispatched
        rw [reply_failed] at hdispatched
        cases hdispatched
      · rename_i hwarning
        cases warning with
        | none => exact ⟨task, w₂, htask, hbody, hadd⟩
        | some text => exact absurd (linearAddComment_warning hadd) hwarning

theorem adds_copies {posts : σ → List String} (h : Thread py.toPython E posts) (hadds : Adds py q server E row s task w) :
    Copies posts (posts s) (strip (commentBody py q row task)) 1 w := by
  have hstart : Copies posts (posts s) (strip (commentBody py q row task)) 0 ⟨s, []⟩ := ⟨0, Nat.le_refl 0, (List.append_nil _).symm⟩
  exact (linearAddComment_copies h (posts s) task hadds.2.1).ok hstart hadds.2.2 rfl

theorem Copies.mem {posts : σ → List String} {start : List String} {body : String} (h : Copies posts start body 1 w) :
    body ∈ posts w.engine := by
  obtain ⟨k, hk, hw⟩ := h
  rw [hw]
  exact List.mem_append_right start (List.mem_replicate.mpr ⟨by omega, rfl⟩)

/-- What an attempt that is settled as dispatched leaves on the issue. -/
theorem attempt_posts {posts : σ → List String} (h : Thread py.toPython E posts)
    (hdispatched : (attempt py floats q server E row s).1 = .dispatched) :
    ∃ task, taskWithRun q row = .ok task ∧
      strip (commentBody py q row task) ∈ posts (attempt py floats q server E row s).2.engine := by
  obtain ⟨task, w, hadds⟩ := adds_of_dispatched hdispatched
  have hposted := adds_copies h hadds
  have hend : Copies posts (posts s) (strip (commentBody py q row task)) 1 (attempt py floats q server E row s).2 := by
    have hkeeps : Keeps (Copies posts (posts s) (strip (commentBody py q row task)) 1) (linearListComments py floats q server E task) :=
      linearListComments_copies h (posts s) _ 1 task
    have hlist := hkeeps w hposted
    simp only [attempt, dispatch_added hadds]
    split
    · exact hposted
    · cases hrun : linearListComments py floats q server E task w with
      | ok comments w' =>
        rw [hrun] at hlist
        exact hlist
      | error e w' =>
        rw [hrun] at hlist
        exact hlist
  exact ⟨task, hadds.1, hend.mem⟩

/-- However many attempts a row takes: where one settles it as dispatched, its comment is on the issue. -/
theorem deliver_posts {posts : σ → List String} (h : Thread py.toPython E posts) (between : Nat → σ → σ) :
    ∀ n s s', deliver py floats q server E between row n s = (some .dispatched, s') →
      ∃ task, taskWithRun q row = .ok task ∧ strip (commentBody py q row task) ∈ posts s' := by
  intro n
  induction n with
  | zero =>
    intro s s' hrun
    cases hrun
  | succ n ih =>
    intro s s' hrun
    rw [deliver] at hrun
    cases hfirst : attempt py floats q server E row (between n s) with
    | mk settled w =>
      rw [hfirst] at hrun
      cases settled with
      | retry text => exact ih w.engine s' hrun
      | failed error => cases hrun
      | dispatched =>
        have hsettled : (attempt py floats q server E row (between n s)).1 = .dispatched := by rw [hfirst]
        have hposts := attempt_posts h hsettled
        rw [hfirst] at hposts
        cases hrun
        exact hposts

/-- An attempt that adds the comment has posted it, and is settled by what it reads back once: as
dispatched where the row names no run or a comment read names it, as failed where comments are read
and none does, for another attempt where reading raises. However many attempts a row takes, where
one settles it as dispatched its comment is on the issue. -/
theorem comment_attempts {posts : σ → List String} (h : Thread py.toPython E posts) (row : OutboxRow) :
    (∀ s task w, Adds py q server E row s task w →
      strip (commentBody py q row task) ∈ posts w.engine ∧
      ((attempt py floats q server E row s).1 = .dispatched ↔
        field py q row "run_id" = "" ∨ Found py floats q server E task (field py q row "run_id") w) ∧
      ((attempt py floats q server E row s).1 = .failed unverified ↔
        field py q row "run_id" ≠ "" ∧ Missing py floats q server E task (field py q row "run_id") w) ∧
      ((∃ text, (attempt py floats q server E row s).1 = .retry text) ↔
        field py q row "run_id" ≠ "" ∧ Unread py floats q server E task w)) ∧
    (∀ (between : Nat → σ → σ) n s s', deliver py floats q server E between row n s = (some .dispatched, s') →
      ∃ task, taskWithRun q row = .ok task ∧ strip (commentBody py q row task) ∈ posts s') :=
  ⟨fun _ _ _ hadds => ⟨(adds_copies h hadds).mem, attempt_added hadds⟩, deliver_posts h⟩

end

/-! ## A long thread -/

/-- An issue whose comments are read a page at a time. -/
def pagedIssue (size : Nat) : Engine (List String) where
  toolIds := fun s => (.ok ["mcp.linear.create_comment", "mcp.linear.list_comments"], s)
  servers := fun s => (.ok [], s)
  run := fun _ args s => match asksComment args with
    | some body => (.ok [], s ++ [body])
    | none => (.ok [("metadata", .obj [("result",
        .obj [("comments", .arr ((s.take size).map fun body => .obj [("body", .str body)]))])])], s)

theorem pagedIssue_thread (py : Python) (size : Nat) : Thread py (pagedIssue size) id where
  toolIds := fun s => rfl
  servers := fun s => rfl
  asked := by
    intro tool args s body result s' hargs hrun hfailed
    simp only [pagedIssue, hargs, Prod.mk.injEq] at hrun
    exact hrun.2.symm
  refused := by
    intro tool args s body hargs
    simp only [pagedIssue, hargs]
    exact .inr rfl
  other := by
    intro tool args s hargs
    simp only [pagedIssue, hargs]

def commentedRemote : Remote :=
  { labelledRemote with payload := fun _ => [("task", .obj [("source", .obj [("issue_id", .str "ENG-1")])]),
      ("run_id", .str "run-1"), ("body", .str "ACA run run-1 finished.")] }

def commentRow : OutboxRow := ⟨1, "linear_issue.comment", "task", "ENG-1", "", .processing, 1, 0, none, 0, 0, none⟩

def finished : String := "ACA run run-1 finished."

/-- An attempt behind another comment, on an issue read two comments at a time. -/
theorem short_thread :
    (∃ task w, Adds tickRuntime commentedRemote "linear" (pagedIssue 2) commentRow ["Looks good"] task w ∧
      strip (commentBody tickRuntime commentedRemote commentRow task) ∈ w.engine ∧
      (field tickRuntime commentedRemote commentRow "run_id" = "" ∨
        Found tickRuntime ⟨id, id⟩ commentedRemote "linear" (pagedIssue 2) task
          (field tickRuntime commentedRemote commentRow "run_id") w)) ∧
    ∃ task, taskWithRun commentedRemote commentRow = .ok task ∧
      strip (commentBody tickRuntime commentedRemote commentRow task) ∈ ["Looks good", finished] := by
  have hthread := pagedIssue_thread tickRuntime.toPython 2
  have hdispatched : (attempt tickRuntime ⟨id, id⟩ commentedRemote "linear" (pagedIssue 2) commentRow ["Looks good"]).1 = .dispatched := by
    decide +kernel
  have hrun : deliver tickRuntime ⟨id, id⟩ commentedRemote "linear" (pagedIssue 2) (fun _ => id) commentRow 1 ["Looks good"] =
      (some .dispatched, ["Looks good", finished]) := by
    decide +kernel
  obtain ⟨task, w, hadds⟩ := adds_of_dispatched hdispatched
  have hall := @comment_attempts (List String) tickRuntime ⟨id, id⟩ commentedRemote "linear" (pagedIssue 2) id hthread commentRow
  have hsettled := hall.1 ["Looks good"] task w hadds
  exact ⟨⟨task, w, hadds, hsettled.1, hsettled.2.1.mp hdispatched⟩, hall.2 _ 1 _ _ hrun⟩

/-- Read one comment at a time, the comment just added is not found and the row is given up; and an
attempt on an issue that has the comment already adds it again. -/
theorem long_thread :
    (attempt tickRuntime ⟨id, id⟩ commentedRemote "linear" (pagedIssue 1) commentRow ["Looks good"]).1 = .failed unverified ∧
    (attempt tickRuntime ⟨id, id⟩ commentedRemote "linear" (pagedIssue 1) commentRow ["Looks good"]).2.engine =
      ["Looks good", finished] ∧
    (attempt tickRuntime ⟨id, id⟩ commentedRemote "linear" (pagedIssue 1) commentRow [finished]).2.engine = [finished, finished] := by
  decide +kernel

end LinearComments
