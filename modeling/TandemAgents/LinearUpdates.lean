import TandemAgents.DispatchTick
import TandemAgents.LinearTool

/-!
# Updating a Linear issue

The fields to write are offered under several spellings, with several spellings of the
issue's id, until the tool takes one of the offers. The first of them is the status alone;
so labels asked for beside a status are written only where the tool refuses the status.
-/
namespace LinearUpdates

open PythonText JsonData Effects LinearTool DispatchTick Outbox

set_option maxRecDepth 20000

/-! ## The issue -/

section
variable (py : Python) (dict : Json → Except String Dict)

/-- `dict(value or {})`. -/
def dictOr (v : Json) : Except String Dict := if v.truthy then v.asDict.elim (dict v) .ok else .ok []

/-- The id of the issue a task is about, or the empty text. -/
def issueIdOf (task : Dict) : Except String String :=
  (dictOr dict (task.get "source")).map fun source =>
    strip (py.text ((((source.get "issue_id").or (source.get "id")).or (source.get "identifier")).or (source.get "item")))

/-- The task is about an issue. -/
def NamesIssue (task : Dict) : Prop := ∃ issueId, issueIdOf py dict task = .ok issueId ∧ issueId ≠ ""

end

/-! ## The offers -/

/-- `value in (None, "", [], {})`. -/
def isVoid : Json → Bool
  | .null => true
  | .str s => decide (s = "")
  | .arr items => items.isEmpty
  | .obj fields => fields.isEmpty
  | _ => false

def cleanFields (fields : Dict) : Dict := fields.filter fun f => !isVoid f.2

def statusKeys : List String := ["status", "state", "state_name", "stateName"]

def labelKeys : List String := ["labels", "label_names", "labelNames"]

/-- The first value that counts as true, or the last one. -/
def statusValue (fields : Dict) : Json :=
  (((fields.get "status").or (fields.get "state")).or (fields.get "state_name")).or (fields.get "stateName")

def labelsValue (fields : Dict) : Json := ((fields.get "labels").or (fields.get "label_names")).or (fields.get "labelNames")

/-- The spellings of the fields, in the order they are offered. -/
def fieldVariants (clean : Dict) : List Dict :=
  let status := statusValue clean
  let labels := labelsValue clean
  (if status.truthy then [[("state", status)]] else []) ++
  (if status.truthy && labels.truthy then [[("state", status), ("labels", labels)], [("status", status), ("labels", labels)],
    [("stateName", status), ("labelNames", labels)]] else []) ++
  (if status.truthy then [[("state", status)], [("status", status)], [("state_name", status)], [("stateName", status)]] else []) ++
  (if labels.truthy then [[("labels", labels)], [("label_names", labels)], [("labelNames", labels)]] else []) ++
  [clean]

def dedupedVariants (clean : Dict) : List Dict := dedupeBy (fun variant => sortedDumps (.obj variant)) [] (fieldVariants clean)

def idKeys : List String := ["id", "issue_id", "issueId", "identifier"]

/-- `{key: value, **d}`. -/
def spread (key : String) (value : Json) (d : Dict) : Dict :=
  (key, if d.contains key then d.get key else value) :: d.filter fun f => decide (f.1 ≠ key)

/-- The arguments of the calls, in order. -/
def attempts (issueId : String) (clean : Dict) : List Dict :=
  (dedupedVariants clean).flatMap fun variant => idKeys.map fun key => spread key (.str issueId) variant

def updateAliases : List String := ["update_issue", "updateIssue", "save_issue", "saveIssue"]

/-! ## The update -/

section
variable {σ : Type} (py : PullRequests.Runtime) (q : Remote) (server : String) (E : Engine σ)

def lift {α : Type} : Except String α → Act σ α
  | .ok a => pure a
  | .error text => throw (.other text)

/-- `linear_update_issue`: a warning, or none. -/
def linearUpdateIssue (task fields : Dict) : Act σ (Option String) := do
  let issueId ← lift (issueIdOf py.toPython q.dict task)
  if issueId = "" then return some "No linked Linear issue metadata available for update sync."
  else if cleanFields fields = [] then return none
  else
    match ← firstAnswer py.toPython server E updateAliases (attempts issueId (cleanFields fields)) "Linear issue update failed." with
    | .ok _ => return none
    | .error text => return some text

/-- The labels of a row, stripped. -/
def cleanLabels (row : OutboxRow) : List String :=
  ((((q.payload row).get "labels").asList.getD []).map fun l => strip (py.str l)).filter fun l => decide (l ≠ "")

/-- `_dispatch_linear_status_update`; an empty warning is none. -/
def dispatchLinearStatusUpdate (row : OutboxRow) : Act σ Dict := do
  let task ← lift (taskOf q row)
  let payload := q.payload row
  let targetStatus := strip (py.text ((payload.get "target_status").or (payload.get "status")))
  let fields := linearFields py targetStatus (payload.get "labels")
  if fields.isEmpty then
    return failedReply q row "Outbox payload missing target_status or labels for Linear issue update." []
  else
    let warning ← linearUpdateIssue py q server E task fields
    return warned q row (warning.getD "")

end

/-! ## What an offer carries -/

/-- The names under which a field may be written. -/
def spellings (key : String) : List String :=
  if key ∈ statusKeys then statusKeys else if key ∈ labelKeys then labelKeys else [key]

/-- The arguments hold every field, under one of its names. -/
def Carries (args clean : Dict) : Prop := ∀ f ∈ clean, ∃ key ∈ spellings f.1, args.get key = clean.get f.1

/-- The fields are names of one status, or names of one list of labels, or neither a status nor
labels are among them. -/
def Uniform (clean : Dict) : Prop :=
  ((statusValue clean).truthy = false ∧ (labelsValue clean).truthy = false) ∨
  (∀ f ∈ clean, f.1 ∈ statusKeys ∧ clean.get f.1 = statusValue clean) ∨
  (∀ f ∈ clean, f.1 ∈ labelKeys ∧ clean.get f.1 = labelsValue clean)

theorem get_of_not_contains {d : Dict} {key : String} (h : d.contains key = false) : d.get key = .null := by
  induction d with
  | nil => rfl
  | cons f d ih =>
    simp only [Dict.contains, List.any_cons, Bool.or_eq_false_iff, decide_eq_false_iff_not] at h
    rw [Dict.get_cons, if_neg h.1]
    exact ih h.2

theorem get_mem {d : Dict} {key : String} (h : d.contains key = true) : (key, d.get key) ∈ d := by
  induction d with
  | nil => cases h
  | cons f d ih =>
    by_cases hkey : f.1 = key
    · rw [Dict.get_cons, if_pos hkey, ← hkey]
      exact List.mem_cons_self
    · simp only [Dict.contains, List.any_cons, hkey, decide_false, Bool.false_or] at h
      rw [Dict.get_cons, if_neg hkey]
      exact List.mem_cons_of_mem f (ih h)

theorem contains_of_mem {d : Dict} {f : String × Json} (h : f ∈ d) : d.contains f.1 = true :=
  List.any_eq_true.mpr ⟨f, h, decide_eq_true rfl⟩

theorem get_filter_ne {d : Dict} {key other : String} (h : other ≠ key) :
    Dict.get (d.filter fun f => decide (f.1 ≠ key)) other = d.get other := by
  induction d with
  | nil => rfl
  | cons f d ih =>
    by_cases hkey : f.1 = key
    · rw [List.filter_cons_of_neg (by simp [hkey]), ih, Dict.get_cons, if_neg (by rw [hkey]; exact h.symm)]
    · rw [List.filter_cons_of_pos (by simp [hkey]), Dict.get_cons, Dict.get_cons, ih]

theorem get_spread_of_contains {key other : String} {value : Json} {d : Dict} (h : d.contains other = true) :
    (spread key value d).get other = d.get other := by
  rw [spread, Dict.get_cons]
  by_cases hkey : key = other
  · rw [if_pos hkey, hkey, if_pos h]
  · rw [if_neg hkey, get_filter_ne (Ne.symm hkey)]

theorem get_spread_other {key other : String} {value : Json} {d : Dict} (hkey : other ≠ key) (h : d.contains other = false) :
    (spread key value d).get other = .null := by
  rw [spread, Dict.get_cons, if_neg (Ne.symm hkey), get_filter_ne hkey, get_of_not_contains h]

theorem self_mem_spellings (key : String) : key ∈ spellings key := by
  unfold spellings
  split
  · assumption
  · split
    · assumption
    · exact List.mem_singleton_self key

/-- The two groups of names are closed. -/
theorem mem_of_mem_spellings {group : List String} (hgroup : group = statusKeys ∨ group = labelKeys) {key name : String}
    (hname : name ∈ group) (h : name ∈ spellings key) : key ∈ group := by
  have hapart : ∀ name, name ∈ statusKeys → name ∈ labelKeys → False := by
    intro name hs hl
    simp only [statusKeys, List.mem_cons, List.not_mem_nil, or_false] at hs
    rcases hs with rfl | rfl | rfl | rfl <;> exact absurd hl (by decide)
  unfold spellings at h
  split at h
  · rename_i hkey
    rcases hgroup with rfl | rfl
    · exact hkey
    · exact (hapart name h hname).elim
  · split at h
    · rename_i hkey
      rcases hgroup with rfl | rfl
      · exact (hapart name hname h).elim
      · exact hkey
    · exact List.mem_singleton.mp h ▸ hname

theorem spellings_of_mem {group : List String} (hgroup : group = statusKeys ∨ group = labelKeys) {key : String}
    (h : key ∈ group) : spellings key = group := by
  rcases hgroup with rfl | rfl
  · exact if_pos h
  · have hstatus : key ∉ statusKeys := by
      simp only [labelKeys, List.mem_cons, List.not_mem_nil, or_false] at h
      rcases h with rfl | rfl | rfl <;> decide
    rw [spellings, if_neg hstatus, if_pos h]

/-- The whole of the fields carries them. -/
theorem carries_self (key : String) (value : Json) (clean : Dict) : Carries (spread key value clean) clean :=
  fun f hf => ⟨f.1, self_mem_spellings f.1, get_spread_of_contains (contains_of_mem hf)⟩

/-- One name carries fields that are all names of its value. -/
theorem carries_one {group : List String} (hgroup : group = statusKeys ∨ group = labelKeys) {name : String} {v : Json}
    {clean : Dict} (hname : name ∈ group) (h : ∀ f ∈ clean, f.1 ∈ group ∧ clean.get f.1 = v) (key : String) (value : Json) :
    Carries (spread key value [(name, v)]) clean := by
  intro f hf
  obtain ⟨hmem, hvalue⟩ := h f hf
  refine ⟨name, (spellings_of_mem hgroup hmem).symm ▸ hname, ?_⟩
  rw [hvalue, get_spread_of_contains (by simp [Dict.contains]), Dict.get_cons, if_pos rfl]

theorem clean_get_ne {fields : Dict} {f : String × Json} (h : f ∈ cleanFields fields) :
    (cleanFields fields).get f.1 ≠ .null := by
  intro hnull
  have hmem := get_mem (contains_of_mem h)
  rw [hnull] at hmem
  exact Bool.false_ne_true (List.mem_filter.mp hmem).2

/-- One name misses, with one of the names of the id, a field that is no name of its value. -/
theorem misses_one {group : List String} (hgroup : group = statusKeys ∨ group = labelKeys) {name : String} {v : Json}
    {fields : Dict} (hname : name ∈ group) {f : String × Json} (hf : f ∈ cleanFields fields)
    (h : ¬ (f.1 ∈ group ∧ (cleanFields fields).get f.1 = v)) (value : Json) :
    ∃ key ∈ idKeys, ¬ Carries (spread key value [(name, v)]) (cleanFields fields) := by
  have hnot : name ∉ idKeys := by
    rcases hgroup with rfl | rfl
    · simp only [statusKeys, List.mem_cons, List.not_mem_nil, or_false] at hname
      rcases hname with rfl | rfl | rfl | rfl <;> decide
    · simp only [labelKeys, List.mem_cons, List.not_mem_nil, or_false] at hname
      rcases hname with rfl | rfl | rfl <;> decide
  have hfree : ∃ key ∈ idKeys, key ∉ spellings f.1 := by
    by_cases hid : "id" ∈ spellings f.1
    · refine ⟨"issue_id", by decide, fun hissue => ?_⟩
      unfold spellings at hid hissue
      split at hid
      · exact absurd hid (by decide)
      · split at hid
        · exact absurd hid (by decide)
        · rw [if_neg ‹_›, if_neg ‹_›, ← List.mem_singleton.mp hid] at hissue
          exact absurd hissue (by decide)
    · exact ⟨"id", by decide, hid⟩
  obtain ⟨key, hkey, hfree⟩ := hfree
  refine ⟨key, hkey, fun hcarries => ?_⟩
  obtain ⟨other, hother, hget⟩ := hcarries f hf
  have hne : other ≠ key := fun he => hfree (he ▸ hother)
  by_cases hsame : other = name
  · rw [hsame, get_spread_of_contains (by simp [Dict.contains]), Dict.get_cons, if_pos rfl] at hget
    exact h ⟨mem_of_mem_spellings hgroup hname (hsame ▸ hother), hget.symm⟩
  · have hlacks : Dict.contains [(name, v)] other = false := by simp [Dict.contains, Ne.symm hsame]
    rw [get_spread_other hne hlacks] at hget
    exact clean_get_ne hf hget.symm

theorem mem_attempts {issueId : String} {clean args : Dict} :
    args ∈ attempts issueId clean ↔
      ∃ variant ∈ dedupedVariants clean, ∃ key ∈ idKeys, args = spread key (.str issueId) variant := by
  simp only [attempts, List.mem_flatMap, List.mem_map, eq_comm]

/-- Without labels the offers are the status under its names, and the fields as they are. -/
theorem variant_status {clean variant : Dict} (hlabels : (labelsValue clean).truthy = false) (h : variant ∈ fieldVariants clean) :
    variant = clean ∨ ∃ name ∈ statusKeys, variant = [(name, statusValue clean)] := by
  simp only [fieldVariants, hlabels, Bool.and_false, Bool.false_eq_true, if_false, List.append_nil, List.mem_append,
    List.mem_singleton] at h
  rcases h with (h | h) | h
  · split at h
    · exact .inr ⟨"state", by decide, List.mem_singleton.mp h⟩
    · cases h
  · split at h
    · simp only [List.mem_cons, List.not_mem_nil, or_false] at h
      rcases h with h | h | h | h
      · exact .inr ⟨"state", by decide, h⟩
      · exact .inr ⟨"status", by decide, h⟩
      · exact .inr ⟨"state_name", by decide, h⟩
      · exact .inr ⟨"stateName", by decide, h⟩
    · cases h
  · exact .inl h

theorem variant_labels {clean variant : Dict} (hstatus : (statusValue clean).truthy = false) (h : variant ∈ fieldVariants clean) :
    variant = clean ∨ ∃ name ∈ labelKeys, variant = [(name, labelsValue clean)] := by
  simp only [fieldVariants, hstatus, Bool.false_and, Bool.false_eq_true, if_false, List.nil_append, List.mem_append,
    List.mem_singleton] at h
  rcases h with h | h
  · split at h
    · simp only [List.mem_cons, List.not_mem_nil, or_false] at h
      rcases h with h | h | h
      · exact .inr ⟨"labels", by decide, h⟩
      · exact .inr ⟨"label_names", by decide, h⟩
      · exact .inr ⟨"labelNames", by decide, h⟩
    · cases h
  · exact .inl h

/-- A value under none of the keys is no value that counts as true. -/
theorem lacks_of_group {group other : List String} {clean : Dict} (h : ∀ f ∈ clean, f.1 ∈ group) {key : String}
    (hkey : key ∈ other) (hapart : ∀ key ∈ other, key ∉ group) : clean.get key = .null := by
  apply get_of_not_contains
  rw [Bool.eq_false_iff]
  intro hcontains
  exact hapart key hkey (h _ (get_mem hcontains))

theorem labelsValue_of_status {clean : Dict} (h : ∀ f ∈ clean, f.1 ∈ statusKeys) : (labelsValue clean).truthy = false := by
  have hapart : ∀ key ∈ labelKeys, key ∉ statusKeys := by
    intro key hkey
    simp only [labelKeys, List.mem_cons, List.not_mem_nil, or_false] at hkey
    rcases hkey with rfl | rfl | rfl <;> decide
  have hnull : ∀ key ∈ labelKeys, clean.get key = .null := fun key hkey => lacks_of_group h hkey hapart
  rw [labelsValue, hnull "labels" (by decide), hnull "label_names" (by decide), hnull "labelNames" (by decide)]
  rfl

theorem statusValue_of_labels {clean : Dict} (h : ∀ f ∈ clean, f.1 ∈ labelKeys) : (statusValue clean).truthy = false := by
  have hapart : ∀ key ∈ statusKeys, key ∉ labelKeys := by
    intro key hkey
    simp only [statusKeys, List.mem_cons, List.not_mem_nil, or_false] at hkey
    rcases hkey with rfl | rfl | rfl | rfl <;> decide
  have hnull : ∀ key ∈ statusKeys, clean.get key = .null := fun key hkey => lacks_of_group h hkey hapart
  rw [statusValue, hnull "status" (by decide), hnull "state" (by decide), hnull "state_name" (by decide),
    hnull "stateName" (by decide)]
  rfl

/-- The first offer is made under every name of the id. -/
theorem first_offered {clean first : Dict} (h : (fieldVariants clean).head? = some first) (issueId : String) {key : String}
    (hkey : key ∈ idKeys) : spread key (.str issueId) first ∈ attempts issueId clean := by
  obtain ⟨rest, hrest⟩ := List.head?_eq_some_iff.mp h
  apply mem_attempts.mpr
  refine ⟨first, ?_, key, hkey, rfl⟩
  rw [dedupedVariants, hrest]
  exact List.mem_cons_self

/-- All the offers carry all the fields exactly if the fields are uniform. -/
theorem attempts_carry_iff (issueId : String) (fields : Dict) :
    (∀ args ∈ attempts issueId (cleanFields fields), Carries args (cleanFields fields)) ↔ Uniform (cleanFields fields) := by
  constructor
  · intro h
    by_contra hnot
    simp only [Uniform, not_or, not_and, not_forall] at hnot
    obtain ⟨hneither, ⟨f, hf, hstatus⟩, g, hg, hlabels⟩ := hnot
    cases hS : (statusValue (cleanFields fields)).truthy with
    | true =>
      have hfirst : (fieldVariants (cleanFields fields)).head? = some [("state", statusValue (cleanFields fields))] := by
        simp only [fieldVariants, hS, if_true]
        rfl
      have hname : "state" ∈ statusKeys := by decide
      obtain ⟨key, hkey, hmiss⟩ := misses_one (.inl rfl) hname hf (not_and.mpr hstatus) (.str issueId)
      exact hmiss (h _ (first_offered hfirst issueId hkey))
    | false =>
      have hL : (labelsValue (cleanFields fields)).truthy = true := by simpa using hneither hS
      have hfirst : (fieldVariants (cleanFields fields)).head? = some [("labels", labelsValue (cleanFields fields))] := by
        simp only [fieldVariants, hS, hL]
        rfl
      have hname : "labels" ∈ labelKeys := by decide
      obtain ⟨key, hkey, hmiss⟩ := misses_one (.inr rfl) hname hg (not_and.mpr hlabels) (.str issueId)
      exact hmiss (h _ (first_offered hfirst issueId hkey))
  · intro h args hargs
    obtain ⟨variant, hvariant, key, hkey, rfl⟩ := mem_attempts.mp hargs
    have hmem : variant ∈ fieldVariants (cleanFields fields) := mem_of_mem_dedupeBy hvariant
    rcases h with ⟨hstatus, hlabels⟩ | hstatus | hlabels
    · simp only [fieldVariants, hstatus, hlabels, Bool.false_and, Bool.false_eq_true, if_false, List.nil_append,
        List.mem_singleton] at hmem
      rw [hmem]
      exact carries_self key _ _
    · rcases variant_status (labelsValue_of_status fun f hf => (hstatus f hf).1) hmem with rfl | ⟨name, hname, rfl⟩
      · exact carries_self key _ _
      · exact carries_one (.inl rfl) hname hstatus key _
    · rcases variant_labels (statusValue_of_labels fun f hf => (hlabels f hf).1) hmem with rfl | ⟨name, hname, rfl⟩
      · exact carries_self key _ _
      · exact carries_one (.inr rfl) hname hlabels key _

/-! ## An engine that takes some offers -/

def pickyTool (server : String) : String := "mcp." ++ server ++ "." ++ "update_issue"

/-- One tool, which takes the offers a test accepts and raises for the others. -/
def picky (server : String) (accept : Dict → Bool) (text : String) : Engine Unit where
  toolIds := fun s => (.ok [pickyTool server], s)
  servers := fun s => (.ok [], s)
  run := fun _ args s => if accept args then (.ok [], s) else (.error (.other text), s)

section
variable (py : PullRequests.Runtime) (q : Remote) (server : String) (accept : Dict → Bool) (text : String)

theorem resolve_picky (w : World Unit) :
    resolveLinearToolId py.toPython server (picky server accept text) "update_issue" w =
      .ok (pickyTool server) w := by
  have hvariants : (aliasVariants "update_issue").filter (fun v => decide (v.toList.head? ≠ some '_')) =
      ["update_issue", "updateIssue"] := by decide +kernel
  have hfind : findTool server [pickyTool server] (candidates server "update_issue") =
      some (pickyTool server) := by
    rw [findTool, candidates, hvariants, List.map_cons, List.eraseDups_cons, List.find?_cons_of_pos]
    · rfl
    · exact decide_eq_true (List.mem_singleton_self (pickyTool server))
  have hids : ask (picky server accept text).toolIds w = .ok [pickyTool server] w := rfl
  rw [resolveLinearToolId, run_bind_ok hids]
  simp only [hfind]
  rfl

theorem toolFailed_nil : toolFailed py.toPython [] = false := by
  have hempty : py.text (Dict.get [] "output") = "" := rfl
  have hstrip : strip "" = "" := by decide
  simp only [toolFailed, hempty, hstrip, py.lower_empty]
  decide

theorem execute_picky (args : Dict) (w : World Unit) :
    executeLinearTool py.toPython server (picky server accept text) updateAliases args w =
      if accept args then .ok [] ⟨(), w.calls ++ [⟨pickyTool server, args, true⟩]⟩
      else .error (.other text) ⟨(), w.calls ++ [⟨pickyTool server, args, false⟩]⟩ := by
  have haliases : ∃ rest, updateAliases.flatMap aliasVariants = "update_issue" :: rest :=
    ⟨_, show _ = "update_issue" :: (updateAliases.flatMap aliasVariants).tail by decide +kernel⟩
  obtain ⟨rest, hrest⟩ := haliases
  have hcaught : caught (resolveLinearToolId py.toPython server (picky server accept text) "update_issue") w =
      .ok (.ok (pickyTool server)) w := by
    rw [caught, run_attempt_ok]
    rw [run_bind_ok (resolve_picky py server accept text w)]
    rfl
  rw [executeLinearTool, hrest, tryTools, run_bind_ok hcaught]
  simp only [List.not_mem_nil, if_false]
  by_cases h : accept args = true
  · have hrun : executeEngineTool py.toPython (picky server accept text) (pickyTool server) args w =
        .ok [] ⟨(), w.calls ++ [⟨pickyTool server, args, true⟩]⟩ := by
      simp only [executeEngineTool, picky, h, if_true, toolFailed_nil, Bool.not_false]
    have hcaught' : caught (executeEngineTool py.toPython (picky server accept text) (pickyTool server) args) w =
        .ok (.ok []) ⟨(), w.calls ++ [⟨pickyTool server, args, true⟩]⟩ := by
      rw [caught, run_attempt_ok]
      rw [run_bind_ok hrun]
      rfl
    rw [run_bind_ok hcaught', if_pos h]
    simp only [toolFailed_nil, Bool.false_eq_true, if_false]
    rfl
  · have hrun : executeEngineTool py.toPython (picky server accept text) (pickyTool server) args w =
        .error (.other text) ⟨(), w.calls ++ [⟨pickyTool server, args, false⟩]⟩ := by
      simp only [executeEngineTool, picky, h, if_false, Bool.false_eq_true]
    have hcaught' : caught (executeEngineTool py.toPython (picky server accept text) (pickyTool server) args) w =
        .error (.other text) ⟨(), w.calls ++ [⟨pickyTool server, args, false⟩]⟩ := by
      rw [caught, run_attempt_error (run_bind_error hrun)]
      rfl
    rw [run_bind_error hcaught', if_neg h]

theorem attempted_picky (args : Dict) (w : World Unit) :
    attempted (executeLinearTool py.toPython server (picky server accept text) updateAliases args) w =
      .ok (if accept args then .ok [] else .error text) ⟨(), w.calls ++ [⟨pickyTool server, args, accept args⟩]⟩ := by
  have hrun := execute_picky py server accept text args w
  by_cases h : accept args = true
  · rw [if_pos h] at hrun
    rw [if_pos h, h, attempted, run_attempt_ok]
    rw [run_bind_ok hrun]
    rfl
  · rw [if_neg h] at hrun
    rw [if_neg h, Bool.eq_false_of_not_eq_true h, attempted, run_attempt_error (run_bind_error hrun)]
    rfl

theorem firstAnswer_accepts {offer : Dict} (h : accept offer = true) (offers : List Dict) (start : String) (w : World Unit) :
    firstAnswer py.toPython server (picky server accept text) updateAliases (offer :: offers) start w =
      .ok (.ok []) ⟨(), w.calls ++ [⟨pickyTool server, offer, true⟩]⟩ := by
  rw [firstAnswer, run_bind_ok (attempted_picky py server accept text offer w), if_pos h, h]
  rfl

theorem firstAnswer_refuses {offer : Dict} (h : accept offer = false) (offers : List Dict) (start : String) (w : World Unit) :
    firstAnswer py.toPython server (picky server accept text) updateAliases (offer :: offers) start w =
      firstAnswer py.toPython server (picky server accept text) updateAliases offers text
        ⟨(), w.calls ++ [⟨pickyTool server, offer, false⟩]⟩ := by
  rw [firstAnswer, run_bind_ok (attempted_picky py server accept text offer w), h]
  rfl

/-- Where an offer is acceptable, one is taken. -/
theorem firstAnswer_picky {offers : List Dict} {args : Dict} (hargs : args ∈ offers) (haccept : accept args = true)
    (start : String) {w : World Unit} (hw : ∀ c ∈ w.calls, c.accepted = true → accept c.args = true) :
    ∃ w' : World Unit, firstAnswer py.toPython server (picky server accept text) updateAliases offers start w = .ok (.ok []) w' ∧
      ∀ c ∈ w'.calls, c.accepted = true → accept c.args = true := by
  induction offers generalizing start w with
  | nil => cases hargs
  | cons offer offers ih =>
    have hnext : ∀ c ∈ w.calls ++ [⟨pickyTool server, offer, accept offer⟩], c.accepted = true → accept c.args = true := by
      intro c hc
      rcases List.mem_append.mp hc with hc | hc
      · exact hw c hc
      · rw [List.mem_singleton.mp hc]
        exact id
    cases h : accept offer with
    | true =>
      rw [h] at hnext
      exact ⟨_, firstAnswer_accepts py server accept text h offers start w, hnext⟩
    | false =>
      rw [h] at hnext
      rw [firstAnswer_refuses py server accept text h]
      have hrest : args ∈ offers := by
        apply (List.mem_cons.mp hargs).resolve_left
        rintro rfl
        rw [h] at haccept
        cases haccept
      exact ih hrest text hnext

/-- Where every offer is refused without a word, so is the last one. -/
theorem firstAnswer_mute {offers : List Dict} (hoffers : offers ≠ []) (start : String) {w : World Unit}
    (hw : Unaccepted w) :
    ∃ w' : World Unit, firstAnswer py.toPython server (picky server (fun _ => false) "") updateAliases offers start w =
      .ok (.error "") w' ∧ Unaccepted w' := by
  induction offers generalizing start w with
  | nil => exact absurd rfl hoffers
  | cons offer offers ih =>
    have hnext : Unaccepted (⟨(), w.calls ++ [⟨pickyTool server, offer, false⟩]⟩ : World Unit) := by
      intro c hc
      rcases List.mem_append.mp hc with hc | hc
      · exact hw c hc
      · rw [List.mem_singleton.mp hc]
    rw [firstAnswer_refuses py server (fun _ => false) "" rfl]
    cases offers with
    | nil => exact ⟨_, rfl, hnext⟩
    | cons second offers => exact ih (List.cons_ne_nil second offers) "" hnext

end

/-! ## What is asked of an update -/

section
variable (py : PullRequests.Runtime) (q : Remote) (server : String)

/-- Whatever the tool answers: an update without a warning wrote every field. -/
def WritesAll (task fields : Dict) : Prop :=
  ∀ (σ : Type) (E : Engine σ) (s : σ) (w : World σ), linearUpdateIssue py q server E task fields ⟨s, []⟩ = .ok none w →
    cleanFields fields ≠ [] → ∃ c ∈ w.calls, c.accepted = true ∧ Carries c.args (cleanFields fields)

/-- Whatever the tool answers: a row that counts as dispatched had its labels sent. -/
def SendsLabels (row : OutboxRow) : Prop :=
  ∀ (σ : Type) (E : Engine σ) (s : σ) (w : World σ) (result : Dict),
    dispatchLinearStatusUpdate py q server E row ⟨s, []⟩ = .ok result w → result.get "status" = .str "dispatched" →
      cleanLabels py q row ≠ [] →
      ∃ c ∈ w.calls, c.accepted = true ∧ ∃ key ∈ labelKeys, c.args.get key = .arr ((cleanLabels py q row).map .str)

/-- A row about an issue, with labels. -/
def AsksLabels (row : OutboxRow) : Prop :=
  cleanLabels py q row ≠ [] ∧ ∃ task, taskOf q row = .ok task ∧ NamesIssue py.toPython q.dict task

variable {py q server}

theorem linearUpdateIssue_of {σ : Type} {E : Engine σ} {task fields : Dict} {issueId : String}
    (hissue : issueIdOf py.toPython q.dict task = .ok issueId) (hne : issueId ≠ "") (hclean : cleanFields fields ≠ [])
    {w w' : World σ} {r : Except String Dict}
    (h : firstAnswer py.toPython server E updateAliases (attempts issueId (cleanFields fields)) "Linear issue update failed." w =
      .ok r w') :
    linearUpdateIssue py q server E task fields w = .ok (match r with | .ok _ => none | .error text => some text) w' := by
  have hlift : (lift (issueIdOf py.toPython q.dict task) : Act σ String) w = .ok issueId w := by
    rw [hissue]
    rfl
  rw [linearUpdateIssue, run_bind_ok hlift]
  simp only [if_neg hne, if_neg hclean]
  rw [run_bind_ok h]
  cases r <;> rfl

theorem attempts_ne_nil {fields : Dict} (issueId : String) : attempts issueId (cleanFields fields) ≠ [] := by
  cases hfirst : fieldVariants (cleanFields fields) with
  | nil => simp [fieldVariants] at hfirst
  | cons first rest =>
    have hhead : (fieldVariants (cleanFields fields)).head? = some first := by rw [hfirst]; rfl
    have hid : "id" ∈ idKeys := by decide
    exact List.ne_nil_of_mem (first_offered hhead issueId hid)

theorem lift_leads {σ α : Type} {P : World σ → Prop} (r : Except String α) :
    Leads P (lift r : Act σ α) (fun a w => P w ∧ r = .ok a) (fun _ => P) := by
  cases r with
  | ok a => exact Leads.pure fun w hw => ⟨hw, rfl⟩
  | error text => exact Leads.raise fun w hw => hw

/-- No call of an update is accepted, or only its last, which made one of the offers. -/
theorem linearUpdateIssue_leads {σ : Type} (E : Engine σ) (task fields : Dict) :
    Leads Unaccepted (linearUpdateIssue py q server E task fields)
      (fun r w => Unaccepted w ∧ (r = none → cleanFields fields = []) ∨
        r = none ∧ ∃ issueId, issueIdOf py.toPython q.dict task = .ok issueId ∧ issueId ≠ "" ∧
          ∃ args ∈ attempts issueId (cleanFields fields), Took args w)
      (fun _ => Unaccepted) := by
  apply Leads.bind (lift_leads _)
  intro issueId
  apply Leads.assume
  intro hissue
  split
  · exact Leads.pure fun w hw => .inl ⟨hw, fun h => absurd h (Option.some_ne_none _)⟩
  · rename_i hne
    split
    · rename_i hclean
      exact Leads.pure fun w hw => .inl ⟨hw, fun _ => hclean⟩
    · have htook : ∀ args ∈ attempts issueId (cleanFields fields),
          Leads Unaccepted (executeLinearTool py.toPython server E updateAliases args) (fun _ => Took args) (fun _ => Unaccepted) :=
        fun args _ => executeLinearTool_took updateAliases args
      have hoffers := firstAnswer_leads htook "Linear issue update failed."
      apply Leads.bind (Leads.weaken hoffers (fun w hw => hw) (fun _ _ h => h) fun _ w h => h.elim)
      intro r
      cases r with
      | ok result => exact Leads.pure fun w hw => .inr ⟨rfl, issueId, hissue, hne, hw⟩
      | error text => exact Leads.pure fun w hw => .inl ⟨hw, fun h => absurd h (Option.some_ne_none _)⟩

/-- An update is complete, whatever the tool answers, exactly if the task is about no issue or the
fields are uniform. -/
theorem writesAll_iff (task fields : Dict) :
    WritesAll py q server task fields ↔ ¬ NamesIssue py.toPython q.dict task ∨ Uniform (cleanFields fields) := by
  constructor
  · intro h
    by_contra hnot
    obtain ⟨hnames, huniform⟩ := not_or.mp hnot
    obtain ⟨issueId, hissue, hne⟩ := not_not.mp hnames
    have hmissing : ∃ args ∈ attempts issueId (cleanFields fields), ¬ Carries args (cleanFields fields) := by
      by_contra hall
      apply huniform
      apply (attempts_carry_iff issueId fields).mp
      intro args hargs
      by_contra hmiss
      exact hall ⟨args, hargs, hmiss⟩
    obtain ⟨args, hargs, hmiss⟩ := hmissing
    have hclean : cleanFields fields ≠ [] := by
      intro hnil
      apply hmiss
      intro f hf
      rw [hnil] at hf
      cases hf
    -- the tool takes just the offers that miss a field
    classical
    have hstart : ∀ c ∈ (⟨(), []⟩ : World Unit).calls, c.accepted = true → decide (¬ Carries c.args (cleanFields fields)) = true := by
      intro c hc
      cases hc
    obtain ⟨w, hrun, htaken⟩ := firstAnswer_picky py server (fun args => decide (¬ Carries args (cleanFields fields))) "" hargs
      (decide_eq_true hmiss) "Linear issue update failed." hstart
    obtain ⟨c, hc, haccepted, hcarries⟩ := h Unit _ () w (linearUpdateIssue_of hissue hne hclean hrun) hclean
    exact of_decide_eq_true (htaken c hc haccepted) hcarries
  · intro h σ E s w hrun hclean
    have hleads := (linearUpdateIssue_leads E task fields).ok (unaccepted_nil s) hrun
    rcases hleads with ⟨-, hnil⟩ | ⟨-, issueId, hissue, hne, args, hargs, rejected, tool, hcalls, -⟩
    · exact absurd (hnil rfl) hclean
    · have huniform := h.resolve_left fun hnot => hnot ⟨issueId, hissue, hne⟩
      refine ⟨⟨tool, args, true⟩, ?_, rfl, (attempts_carry_iff issueId fields).mpr huniform args hargs⟩
      rw [hcalls]
      exact List.mem_append_right rejected (List.mem_singleton_self _)

/-- At most one call of an update is accepted. -/
theorem accepted_le_one {σ : Type} (E : Engine σ) (task fields : Dict) (s : σ) :
    ((endState (linearUpdateIssue py q server E task fields ⟨s, []⟩)).calls.filter LinearTool.Call.accepted).length ≤ 1 := by
  have hnone : ∀ calls : List LinearTool.Call, (∀ c ∈ calls, c.accepted = false) → calls.filter LinearTool.Call.accepted = [] := by
    intro calls h
    apply List.filter_eq_nil_iff.mpr
    intro c hc
    rw [h c hc]
    exact Bool.false_ne_true
  have hleads := @linearUpdateIssue_leads py q server σ E task fields ⟨s, []⟩ (unaccepted_nil s)
  cases hrun : linearUpdateIssue py q server E task fields ⟨s, []⟩ with
  | ok r w =>
    rw [hrun] at hleads
    rcases hleads with ⟨hw, -⟩ | ⟨-, issueId, -, -, args, -, rejected, tool, hcalls, hrejected⟩
    · rw [endState, hnone w.calls hw]
      exact Nat.zero_le 1
    · rw [endState, hcalls, List.filter_append, hnone rejected hrejected]
      exact Nat.le_refl 1
  | error e w =>
    rw [hrun] at hleads
    rw [endState, hnone w.calls hleads]
    exact Nat.zero_le 1

theorem reply_status (kind : String) (payload : Dict) (row : OutboxRow) (status : String) (terminal : Bool) (error : String)
    (more : Dict) : (reply kind payload row status terminal error more).get "status" = .str status := by
  simp [reply, Dict.get_cons]

theorem labels_kept {row : OutboxRow} (h : cleanLabels py q row ≠ []) (targetStatus : String) :
    cleanFields (linearFields py targetStatus ((q.payload row).get "labels")) ≠ [] := by
  have hfields : ("labels", Json.arr ((cleanLabels py q row).map .str)) ∈
      linearFields py targetStatus ((q.payload row).get "labels") := by
    rw [linearFields]
    apply List.mem_append_right
    change _ ∈ if cleanLabels py q row = [] then _ else _
    rw [if_neg h]
    exact List.mem_cons_self
  have hvoid : isVoid (Json.arr ((cleanLabels py q row).map .str)) = false := by
    simpa [isVoid] using h
  exact List.ne_nil_of_mem (List.mem_filter.mpr ⟨hfields, by rw [hvoid]; rfl⟩)

/-- A row counts as dispatched without its labels, for some answers of the tool, exactly if it has
labels and is about an issue. -/
theorem sendsLabels_iff (row : OutboxRow) : SendsLabels py q server row ↔ ¬ AsksLabels py q row := by
  constructor
  · rintro h ⟨hlabels, task, htask, issueId, hissue, hne⟩
    have hclean := labels_kept hlabels (strip (py.text (((q.payload row).get "target_status").or ((q.payload row).get "status"))))
    obtain ⟨w, hrun, hquiet⟩ := firstAnswer_mute py server (attempts_ne_nil issueId) "Linear issue update failed."
      (unaccepted_nil ())
    have hupdate := linearUpdateIssue_of hissue hne hclean hrun
    have hdispatch : dispatchLinearStatusUpdate py q server (picky server (fun _ => false) "") row ⟨(), []⟩ =
        .ok (dispatchedReply q row []) w := by
      have hlift : (lift (taskOf q row) : Act Unit Dict) ⟨(), []⟩ = .ok task ⟨(), []⟩ := by
        rw [htask]
        rfl
      rw [dispatchLinearStatusUpdate, run_bind_ok hlift]
      have hsome : (linearFields py (strip (py.text (((q.payload row).get "target_status").or ((q.payload row).get "status"))))
          ((q.payload row).get "labels")).isEmpty = false := by
        rw [List.isEmpty_eq_false_iff]
        rintro hnil
        rw [hnil] at hclean
        exact hclean rfl
      simp only [hsome, Bool.false_eq_true, if_false]
      rw [run_bind_ok hupdate]
      rfl
    obtain ⟨c, hc, haccepted, -⟩ := h Unit _ () w _ hdispatch (reply_status _ _ _ _ _ _ _) hlabels
    rw [hquiet c hc] at haccepted
    cases haccepted
  · intro h σ E s w result hrun hstatus hlabels
    exfalso
    obtain ⟨task, w₁, hlift, hrest⟩ := bind_eq_ok.mp hrun
    have htask := (lift_leads (P := fun _ => True) (taskOf q row)).ok trivial hlift
    split at hrest
    · rw [← (pure_eq_ok.mp hrest).1, failedReply, reply_status] at hstatus
      exact absurd hstatus (by simp)
    · obtain ⟨warning, w₂, hupdate, hwarned⟩ := bind_eq_ok.mp hrest
      obtain ⟨issueId, w₃, hissue, hupdate⟩ := bind_eq_ok.mp hupdate
      have hissue' := (lift_leads (P := fun _ => True) (issueIdOf py.toPython q.dict task)).ok trivial hissue
      by_cases hne : issueId = ""
      · rw [if_pos hne] at hupdate
        rw [← (pure_eq_ok.mp hupdate).1] at hwarned
        rw [← (pure_eq_ok.mp hwarned).1, Option.getD_some, warned, if_pos (by decide), failedReply, reply_status] at hstatus
        exact absurd hstatus (by simp)
      · exact h ⟨hlabels, task, htask.2, issueId, hissue'.2, hne⟩

/-- Over every task, every mapping of fields, every row and everything the tool may answer. -/
theorem update_complete_iff :
    (∀ task fields, WritesAll py q server task fields ↔ ¬ NamesIssue py.toPython q.dict task ∨ Uniform (cleanFields fields)) ∧
    (∀ row, SendsLabels py q server row ↔ ¬ AsksLabels py q row) ∧
    (∀ (σ : Type) (E : Engine σ) (task fields : Dict) (s : σ),
      ((endState (linearUpdateIssue py q server E task fields ⟨s, []⟩)).calls.filter LinearTool.Call.accepted).length ≤ 1) :=
  ⟨writesAll_iff, sendsLabels_iff, fun _ => accepted_le_one⟩

end

/-- A row that finishes an issue and labels it. -/
def labelledPayload : Dict :=
  [("task", .obj [("source", .obj [("issue_id", .str "ENG-1")])]), ("target_status", .str "Done"), ("labels", .arr [.str "aca-done"])]

def labelledRemote : Remote where
  payload := fun _ => labelledPayload
  dict := fun _ => .ok []
  issueCommentBody := fun _ _ => ""
  linearCommentBody := fun _ _ => ""
  updateProjectItemStatus := fun _ _ => .ok ""
  addIssueComment := fun _ _ => .ok ""
  createPullRequestMetadata := fun _ _ _ _ => .ok []
  linearUpdateIssue := fun _ _ => .ok ""
  linearAddComment := fun _ _ => .ok ""
  linearCommentMarkerPresent := fun _ _ => .ok true

def labelledRow : OutboxRow :=
  ⟨1, "linear_issue.status_update", "task", "ENG-1", "", .processing, 1, 0, none, 0, 0, none⟩

def labelledFields : Dict := linearFields tickRuntime "Done" (.arr [.str "aca-done"])

/-- The tool takes the first offer, the status alone: the update is done and the row dispatched, and
the labels were never sent. -/
theorem labels_lost :
    ¬ WritesAll tickRuntime labelledRemote "linear" [("source", .obj [("issue_id", .str "ENG-1")])] labelledFields ∧
    ¬ SendsLabels tickRuntime labelledRemote "linear" labelledRow := by
  have hissue : issueIdOf tickRuntime.toPython labelledRemote.dict [("source", .obj [("issue_id", .str "ENG-1")])] = .ok "ENG-1" := by
    decide +kernel
  have hclean : cleanFields labelledFields = [("status", .str "Done"), ("state", .str "Done"), ("state_name", .str "Done"),
      ("labels", .arr [.str "aca-done"]), ("label_names", .arr [.str "aca-done"])] := rfl
  have hne : cleanFields labelledFields ≠ [] := by
    rw [hclean]
    exact List.cons_ne_nil _ _
  have hoffers : attempts "ENG-1" (cleanFields labelledFields) =
      [("id", .str "ENG-1"), ("state", .str "Done")] :: (attempts "ENG-1" (cleanFields labelledFields)).tail := rfl
  have hanswer : firstAnswer tickRuntime.toPython "linear" (picky "linear" (fun _ => true) "") updateAliases
      (attempts "ENG-1" (cleanFields labelledFields)) "Linear issue update failed." ⟨(), []⟩ =
        .ok (.ok []) ⟨(), [⟨pickyTool "linear", [("id", .str "ENG-1"), ("state", .str "Done")], true⟩]⟩ := by
    rw [hoffers]
    exact firstAnswer_accepts tickRuntime "linear" (fun _ => true) "" rfl _ _ ⟨(), []⟩
  have hupdate := linearUpdateIssue_of hissue (by decide) hne hanswer
  have hdispatch : dispatchLinearStatusUpdate tickRuntime labelledRemote "linear" (picky "linear" (fun _ => true) "") labelledRow
      ⟨(), []⟩ = .ok (dispatchedReply labelledRemote labelledRow [])
        ⟨(), [⟨pickyTool "linear", [("id", .str "ENG-1"), ("state", .str "Done")], true⟩]⟩ := by
    rw [dispatchLinearStatusUpdate, run_bind_ok (rfl : (lift (taskOf labelledRemote labelledRow) : Act Unit Dict) ⟨(), []⟩ =
      .ok [("source", .obj [("issue_id", .str "ENG-1")])] ⟨(), []⟩)]
    exact run_bind_ok hupdate
  have hlacks : ∀ key ∈ labelKeys, Dict.get [("id", .str "ENG-1"), ("state", .str "Done")] key = .null := by
    intro key hkey
    simp only [labelKeys, List.mem_cons, List.not_mem_nil, or_false] at hkey
    rcases hkey with rfl | rfl | rfl <;> rfl
  constructor
  · intro h
    obtain ⟨c, hc, -, hcarries⟩ := h Unit _ () _ hupdate hne
    rw [List.mem_singleton.mp hc] at hcarries
    obtain ⟨key, hkey, hget⟩ := hcarries ("labels", .arr [.str "aca-done"]) (by rw [hclean]; simp)
    rw [hlacks key hkey] at hget
    cases hget
  · intro h
    obtain ⟨c, hc, -, key, hkey, hget⟩ := h Unit _ () _ _ hdispatch (reply_status _ _ _ _ _ _ _) (by decide +kernel)
    rw [List.mem_singleton.mp hc, hlacks key hkey] at hget
    cases hget

end LinearUpdates
