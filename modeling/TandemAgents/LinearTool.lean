import TandemAgents.Effects
import TandemAgents.JsonCanonical

/-!
# Calling the Linear tool

The engine lists its tools and runs one of them with some arguments. A call names the tool
by aliases: each spelling of each alias is looked up, and the tools found are run in turn
with the same arguments, until one of them answers without an error. Every run of a tool
is kept in a log, with whether it was accepted.
-/
namespace LinearTool

open PythonText JsonData JsonText Effects

set_option maxRecDepth 20000

/-! ## The engine -/

/-- What is raised: a `RuntimeError`, which `_execute_linear_tool` catches, or something else;
with `str(exc)`. -/
inductive Refusal where
  | runtime (text : String)
  | other (text : String)

def Refusal.text : Refusal → String
  | runtime text => text
  | other text => text

/-- `_cached_engine_tool_ids`, `list_mcp_servers` and `execute_engine_tool`, over the state of
whatever answers them. -/
structure Engine (σ : Type) where
  toolIds : σ → Except Refusal (List String) × σ
  servers : σ → Except Refusal Dict × σ
  run : String → Dict → σ → Except Refusal Dict × σ

/-- One run of a tool, and whether its result was taken. -/
structure Call where
  tool : String
  args : Dict
  accepted : Bool

structure World (σ : Type) where
  engine : σ
  calls : List Call

abbrev Act (σ : Type) := EStateM Refusal (World σ)

section
variable {σ α : Type} (py : Python) (server : String) (E : Engine σ)

def ask (f : σ → Except Refusal α × σ) : Act σ α := fun w =>
  match f w.engine with
  | (.ok a, s) => .ok a { w with engine := s }
  | (.error e, s) => .error e { w with engine := s }

/-- `result["metadata"]["result"]`, where both are dictionaries. -/
def innerResult (result : Dict) : Option Dict := (result.get "metadata").asDict.bind fun metadata => (metadata.get "result").asDict

def failedStarts : List String := ["failed", "unknown method", "unknown tool", "missing required"]

/-- `_tool_failed`. -/
def toolFailed (result : Dict) : Bool :=
  (innerResult result).any (fun inner => match inner.get "isError" with
    | .bool b => b
    | _ => false) ||
  failedStarts.any fun start => start.toList.isPrefixOf (py.lower (strip (py.text (result.get "output")))).toList

/-- `_tool_error_message`. -/
def toolErrorMessage (result : Dict) : String :=
  let output := strip (py.text (result.get "output"))
  let texts := ((innerResult result).elim [] fun inner => (inner.get "content").dicts).filterMap fun entry =>
    ((entry.get "text").asStr.map strip).filter fun text => decide (text ≠ "")
  orElse output (texts.head?.getD "unknown Linear MCP error")

/-- `execute_engine_tool(cfg, tool_id, args)`. -/
def executeEngineTool (tool : String) (args : Dict) : Act σ Dict := fun w =>
  match E.run tool args w.engine with
  | (.ok result, s) => .ok result ⟨s, w.calls ++ [⟨tool, args, !toolFailed py result⟩]⟩
  | (.error e, s) => .error e ⟨s, w.calls ++ [⟨tool, args, false⟩]⟩

/-- `try ... except RuntimeError`. -/
def caught (m : Act σ α) : Act σ (Except String α) :=
  tryCatch (do return .ok (← m)) fun e => match e with
    | .runtime text => pure (.error text)
    | .other text => throw (.other text)

/-- `try ... except Exception`. -/
def attempted (m : Act σ α) : Act σ (Except String α) :=
  tryCatch (do return .ok (← m)) fun e => pure (.error e.text)

/-! ## Finding a tool -/

/-- `re.sub(r"_([a-z])", ...)`: a letter behind an underscore is raised and the underscore dropped. -/
def camelCase : List Char → List Char
  | '_' :: c :: cs => if 97 ≤ c.toNat ∧ c.toNat ≤ 122 then Char.ofNat (c.toNat - 32) :: camelCase cs else '_' :: camelCase (c :: cs)
  | c :: cs => c :: camelCase cs
  | [] => []

/-- `_alias_variants`. -/
def aliasVariants (name : String) : List String :=
  let stripped := strip name
  if stripped = "" then []
  else
    let cs := stripped.toList
    let other := if cs.head? = some '_' then String.ofList cs.tail else "_" ++ stripped
    let camel := String.ofList (camelCase (cs.dropWhile (· = '_')))
    (if camel ≠ "" ∧ camel ∉ [stripped, other] then [stripped, other, camel] else [stripped, other]).eraseDups

/-- `tool_id.rsplit(".", 1)[-1]`. -/
def lastPart (toolId : String) : List Char := (toolId.toList.reverse.takeWhile (· ≠ '.')).reverse

/-- The candidates of one alias: `mcp.<server>.<variant>`. -/
def candidates (name : String) : List String :=
  (((aliasVariants name).filter fun v => decide (v.toList.head? ≠ some '_')).map fun v => "mcp." ++ server ++ "." ++ v).eraseDups

/-- The tool with the name of a candidate, or one of the server's that ends like it. -/
def findTool (ids names : List String) : Option String :=
  (names.find? fun name => decide (name ∈ ids)).orElse fun _ =>
    names.findSome? fun name => ids.find? fun id =>
      ("mcp." ++ server ++ ".").toList.isPrefixOf id.toList && decide (lastPart id = lastPart name)

/-- `get_mcp_server(cfg, server_name) or {}`. -/
def getMcpServer : Act σ Dict := do
  let servers ← ask E.servers
  return (servers.get server).asDict.getD []

/-- `_resolve_linear_tool_id(cfg, [alias])`. -/
def resolveLinearToolId (name : String) : Act σ String := do
  let ids ← ask E.toolIds
  match findTool server ids (candidates server name) with
  | some id => return id
  | none =>
    if candidates server name = [] then throw (.runtime "No Linear MCP tool aliases provided.")
    else
      let entry ← getMcpServer server E
      if (entry.get "connected").truthy then
        throw (.runtime ("Linear MCP server '" ++ server ++ "' did not expose a tool matching any of: " ++
          commaJoin (candidates server name)))
      else
        throw (.runtime ("Linear MCP server '" ++ server ++ "' is not connected: " ++
          orElse (strip (py.text (entry.get "last_error"))) "authorization is required"))

/-! ## Running it -/

/-- The tools run so far, and the last of each kind of error. -/
structure Tried where
  tools : List String := []
  resolveError : Option String := none
  executionError : Option String := none

/-- The spellings still to try. -/
def tryTools (args : Dict) : List String → Tried → Act σ Dict
  | [], t => throw (.runtime ((t.executionError.orElse fun _ => t.resolveError).getD "Could not execute a Linear MCP tool."))
  | variant :: variants, t => do
    match ← caught (resolveLinearToolId py server E variant) with
    | .error text => tryTools args variants { t with resolveError := some text }
    | .ok tool =>
      if tool ∈ t.tools then tryTools args variants t
      else
        match ← caught (executeEngineTool py E tool args) with
        | .error text => tryTools args variants { t with tools := tool :: t.tools, executionError := some text }
        | .ok result =>
          if toolFailed py result then
            tryTools args variants { t with tools := tool :: t.tools, executionError := some (toolErrorMessage py result) }
          else return result

/-- `_execute_linear_tool`. -/
def executeLinearTool (aliases : List String) (args : Dict) : Act σ Dict :=
  tryTools py server E args (aliases.flatMap aliasVariants) {}

/-- Argument shapes tried in turn, until the tool takes one: its result, or the text of the last
error. -/
def firstAnswer (aliases : List String) : List Dict → String → Act σ (Except String Dict)
  | [], text => return .error text
  | args :: attempts, _ => do
    match ← attempted (executeLinearTool py server E aliases args) with
    | .ok result => return .ok result
    | .error text => firstAnswer aliases attempts text

end

/-! ## What a call leads to -/

section
variable {σ α : Type} {py : Python} {server : String} {E : Engine σ} {I : World σ → Prop}

theorem caught_leads {m : Act σ α} {Q : α → World σ → Prop} {R : World σ → Prop} (h : Leads I m Q (fun _ => R)) :
    Leads I (caught m) (fun r w => match r with | .ok a => Q a w | .error _ => R w) (fun _ => R) := by
  apply Leads.attempt (Q := _) (R := fun _ => R)
  · exact Leads.bind h fun a => Leads.pure fun w hw => hw
  · intro e
    cases e with
    | runtime text => exact Leads.pure fun w hw => hw
    | other text => exact Leads.raise fun w hw => hw

theorem attempted_leads {m : Act σ α} {Q : α → World σ → Prop} {R : World σ → Prop} (h : Leads I m Q (fun _ => R)) :
    Leads I (attempted m) (fun r w => match r with | .ok a => Q a w | .error _ => R w) (fun _ _ => False) := by
  apply Leads.attempt (R := fun _ => R)
  · exact Leads.bind h fun a => Leads.pure fun w hw => hw
  · intro e
    exact Leads.pure fun w hw => hw

/-- Looking a tool up keeps what the two requests it makes keep. -/
theorem resolve_keeps (hids : Keeps I (ask E.toolIds)) (hservers : Keeps I (ask E.servers)) (name : String) :
    Keeps I (resolveLinearToolId py server E name) := by
  apply Keeps.bind hids
  intro ids
  cases findTool server ids (candidates server name) with
  | some id => exact Keeps.pure id
  | none =>
    have hentry : Keeps I (getMcpServer server E) := Keeps.bind hservers fun servers => Keeps.pure _
    simp only
    split
    · exact Keeps.raise _
    · apply Keeps.bind hentry
      intro entry
      split <;> exact Keeps.raise _

/-- What holds as long as no run was accepted, and what the accepted run makes of it. -/
theorem executeLinearTool_leads {J : Dict → World σ → Prop} {args : Dict} (hids : Keeps I (ask E.toolIds))
    (hservers : Keeps I (ask E.servers))
    (hrun : ∀ tool, Leads I (executeEngineTool py E tool args)
      (fun result w => if toolFailed py result then I w else J result w) (fun _ => I)) (aliases : List String) :
    Leads I (executeLinearTool py server E aliases args) J (fun _ => I) := by
  have hall : ∀ variants t, Leads I (tryTools py server E args variants t) J (fun _ => I) := by
    intro variants
    induction variants with
    | nil =>
      intro t
      exact Leads.raise fun w hw => hw
    | cons variant variants ih =>
      intro t
      apply Leads.bind (caught_leads (resolve_keeps hids hservers variant))
      intro r
      cases r with
      | error text => exact ih _
      | ok tool =>
        simp only
        split
        · exact ih t
        · apply Leads.bind (caught_leads (hrun tool))
          intro r
          cases r with
          | error text => exact ih _
          | ok result =>
            simp only
            split
            · exact ih _
            · exact Leads.pure fun w hw => hw
  exact hall _ {}

end

/-! ## The log -/

section
variable {σ : Type} {py : Python} {server : String} {E : Engine σ}

/-- No run has been accepted. -/
def Unaccepted (w : World σ) : Prop := ∀ c ∈ w.calls, c.accepted = false

theorem unaccepted_nil (s : σ) : Unaccepted (⟨s, []⟩ : World σ) := fun c hc => by cases hc

/-- The last run was accepted, with these arguments, and no other. -/
def Took (args : Dict) (w : World σ) : Prop :=
  ∃ rejected tool, w.calls = rejected ++ [⟨tool, args, true⟩] ∧ ∀ c ∈ rejected, c.accepted = false

theorem ask_unaccepted {α : Type} (f : σ → Except Refusal α × σ) : Keeps Unaccepted (ask f) := by
  intro w hw
  unfold ask
  rcases f w.engine with ⟨_ | _, s⟩ <;> exact hw

theorem run_unaccepted (tool : String) (args : Dict) :
    Leads Unaccepted (executeEngineTool py E tool args)
      (fun result w => if toolFailed py result then Unaccepted w else Took args w) (fun _ => Unaccepted) := by
  intro w hw
  have hrejected : ∀ c ∈ w.calls ++ [⟨tool, args, false⟩], Call.accepted c = false := by
    intro c hc
    rcases List.mem_append.mp hc with hc | hc
    · exact hw c hc
    · rw [List.mem_singleton.mp hc]
  simp only [executeEngineTool]
  rcases E.run tool args w.engine with ⟨e | result, s⟩
  · exact hrejected
  · by_cases hfailed : toolFailed py result = true
    · simp only [hfailed, if_true, Bool.not_true]
      exact hrejected
    · simp only [Bool.not_eq_true _ |>.mp hfailed, Bool.not_false]
      exact ⟨w.calls, tool, rfl, hw⟩

/-- A call that answers had one run accepted, its last; one that raises none. -/
theorem executeLinearTool_took (aliases : List String) (args : Dict) :
    Leads Unaccepted (executeLinearTool py server E aliases args) (fun _ => Took args) (fun _ => Unaccepted) :=
  executeLinearTool_leads (ask_unaccepted _) (ask_unaccepted _) (fun tool => run_unaccepted tool args) aliases

theorem firstAnswer_leads {I : World σ → Prop} {J : Dict → World σ → Prop} {aliases : List String} {attempts : List Dict}
    (h : ∀ args ∈ attempts, Leads I (executeLinearTool py server E aliases args) (fun _ => J args) (fun _ => I)) (text : String) :
    Leads I (firstAnswer py server E aliases attempts text)
      (fun r w => match r with | .ok _ => ∃ args ∈ attempts, J args w | .error _ => I w) (fun _ _ => False) := by
  induction attempts generalizing text with
  | nil => exact Leads.pure fun w hw => hw
  | cons args attempts ih =>
    apply Leads.bind (attempted_leads (h args List.mem_cons_self))
    intro r
    cases r with
    | ok result => exact Leads.pure fun w hw => ⟨args, List.mem_cons_self, hw⟩
    | error text =>
      apply Leads.weaken (ih (fun a ha => h a (List.mem_cons_of_mem args ha)) text) (fun w hw => hw)
      · intro r w hr
        cases r with
        | ok result =>
          obtain ⟨a, ha, hj⟩ := hr
          exact ⟨a, List.mem_cons_of_mem args ha, hj⟩
        | error text => exact hr
      · exact fun e w hw => hw

end

/-! ## What a result says -/

section
variable (py : Python) (floats : Floats)

/-- `json.loads(text)`, unless the text is blank or no JSON. -/
def loadsText (v : Json) : Option Json := (v.asStr.filter fun text => decide (strip text ≠ "")).bind fun text => loads floats text.toList

/-- `json.dumps(value, sort_keys=True, default=str)`. -/
def sortedDumps (v : Json) : List Char := dumps (JsonCanonical.sortKeys v)

/-- The first of the values with each spelling. -/
def dedupeBy {α : Type} (key : α → List Char) : List (List Char) → List α → List α
  | _, [] => []
  | seen, a :: as => if key a ∈ seen then dedupeBy key seen as else a :: dedupeBy key (key a :: seen) as

/-- The texts that the content of a value holds, read as JSON. -/
def contentPayloads (v : Json) : List Json :=
  (v.asDict.elim [] fun d => (d.get "content").dicts).filterMap fun entry => loadsText floats (entry.get "text")

/-- `_tool_result_payloads`. -/
def toolResultPayloads (result : Dict) : List Json :=
  let metadata := ((result.get "metadata").asDict.filter fun m => m.contains "result").elim [] fun m => [m.get "result"]
  let values := metadata ++ (loadsText floats (result.get "output")).toList
  dedupeBy sortedDumps [] (values ++ values.flatMap (contentPayloads floats))

/-- The entries under one key: a list, or the `nodes` or `items` of a dictionary. -/
def entriesUnder (v : Json) : List Dict :=
  match v with
  | .arr _ => v.dicts
  | .obj d =>
    match Dict.get d "nodes", Dict.get d "items" with
    | .arr nodes, _ => Json.dicts (.arr nodes)
    | _, .arr items => Json.dicts (.arr items)
    | _, _ => []
  | _ => []

/-- `_flatten_entries`. -/
def flattenEntries (payload : Json) (keys : List String) : List Dict :=
  match payload with
  | .arr _ => payload.dicts
  | .obj d =>
    let entries := keys.flatMap fun key => entriesUnder (Dict.get d key)
    if entries.isEmpty && ["id", "identifier", "title", "name"].any (Dict.contains d) then [d] else entries
  | _ => []

end

theorem mem_of_mem_dedupeBy {α : Type} {key : α → List Char} {a : α} {as : List α} {seen : List (List Char)}
    (h : a ∈ dedupeBy key seen as) : a ∈ as := by
  induction as generalizing seen with
  | nil => exact h
  | cons b as ih =>
    rw [dedupeBy] at h
    split at h
    · exact List.mem_cons_of_mem b (ih h)
    · rcases List.mem_cons.mp h with rfl | h
      · exact List.mem_cons_self
      · exact List.mem_cons_of_mem b (ih h)

end LinearTool
