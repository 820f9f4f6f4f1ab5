import TandemAgents.CoderRun

/-!
# The two readers of a coder run

The loop that waits for a coder and the supervisor decode the same answer of the engine. The
loop reads the run alone and knows one spelling of a cancelled run; the supervisor knows both
and falls back to the coder's own entry.
-/
namespace CoderReaders

open PythonText JsonData CoderRun

set_option maxRecDepth 20000

variable (py : Python)

/-- `build_coder_result_from_response`; `error` is what the answer says under that name. -/
def buildCoderResultFromResponse (runId : String) (error : Json) (response : CoderResponse) : CoderResult :=
  let status := normalizeStatus py (py.text ((response.run.get "status").or (response.coderRun.get "status")))
  let phase := py.lower (strip (py.text ((response.run.get "phase").or (response.coderRun.get "phase"))))
  { coderRun := if response.coderRun = [] then
      [("coder_run_id", .str runId), ("status", .str status), ("phase", .str phase)] else response.coderRun
    run := response.run
    artifacts := response.artifacts
    status := status
    phase := phase
    lastError := strip (py.text ((response.run.get "last_error").or error))
    monitorTimeout := false }

/-- The loop stops on an answer. -/
def stopsOn (response : CoderResponse) : Bool := stopsWaiting (lowered py response.run "status")

/-- The loop of `execute_coder_run` comes to an answer and stops on it. -/
def StopsAt (a : CoderAnswers) (response : CoderResponse) : Prop :=
  stopsOn py response = true ∧ ∃ (before : List CoderResponse) (after : List (Except String CoderResponse)),
    a.polls = before.map .ok ++ .ok response :: after ∧ ∀ r ∈ before, stopsOn py r = false

/-- Both readers call an answer final or neither does, and what the loop returns on it reads
as the supervisor reads the answer. -/
structure Agree (runId : String) (error : Json) (response : CoderResponse) : Prop where
  stops : stopsOn py response = true ↔ isTerminal (buildCoderResultFromResponse py runId error response).status = true
  returned : ∀ a result, StopsAt py a response → executeCoderRun py a = .ok result →
    result.status = (buildCoderResultFromResponse py runId error response).status ∧
      result.phase = (buildCoderResultFromResponse py runId error response).phase ∧
      result.artifacts = (buildCoderResultFromResponse py runId error response).artifacts

/-- The run's own status decides, in the one spelling the loop knows, and its phase comes
with it. -/
structure SelfContained (response : CoderResponse) : Prop where
  spelled : (response.run.get "status").truthy = true → lowered py response.run "status" ≠ "canceled"
  stated : (response.run.get "status").truthy = false → isTerminal (lowered py response.coderRun "status") = false
  phased : stopsOn py response = true →
    (response.run.get "phase").truthy = true ∨ lowered py response.coderRun "phase" = ""

variable {py}

/-! ## What each of them reads -/

theorem lowered_of_not {d : Dict} {key : String} (h : (d.get key).truthy = false) : lowered py d key = "" := by
  have hstrip : strip "" = "" := by decide
  rw [lowered, Python.text_of_not py h, hstrip, py.lower_empty]

/-- Where the run says nothing under a key, the coder's own entry is read. -/
theorem lowered_or (r : CoderResponse) (key : String) :
    py.lower (strip (py.text ((r.run.get key).or (r.coderRun.get key)))) =
      if (r.run.get key).truthy = true then lowered py r.run key else lowered py r.coderRun key := by
  cases h : (r.run.get key).truthy with
  | true => rw [Json.or_of_truthy h, if_pos rfl, lowered]
  | false => rw [Json.or_of_not h, if_neg (by simp), lowered]

theorem isTerminal_canceled (s : String) :
    isTerminal (if s = "canceled" then "cancelled" else s) = true ↔ stopsWaiting s = true ∨ s = "canceled" := by
  by_cases h : s = "canceled"
  · simp [h, isTerminal]
  · simp [h, isTerminal, stopsWaiting]

theorem isTerminal_iff (s : String) : isTerminal s = true ↔ stopsWaiting s = true ∨ s = "canceled" := by
  simp [isTerminal, stopsWaiting, or_assoc]

theorem ne_canceled_of_stops {s : String} (h : stopsWaiting s = true) : s ≠ "canceled" := by
  intro heq
  rw [heq] at h
  revert h
  decide

theorem truthy_of_stops {r : CoderResponse} (h : stopsOn py r = true) : (r.run.get "status").truthy = true := by
  by_contra hnot
  rw [stopsOn, lowered_of_not (Bool.eq_false_iff.mpr hnot)] at h
  revert h
  decide

/-- The supervisor's status, where the run has one of its own and where it has none. -/
theorem build_status (runId : String) (error : Json) (r : CoderResponse) :
    (buildCoderResultFromResponse py runId error r).status =
      if (if (r.run.get "status").truthy = true then lowered py r.run "status" else lowered py r.coderRun "status") =
        "canceled" then "cancelled"
      else if (r.run.get "status").truthy = true then lowered py r.run "status" else lowered py r.coderRun "status" := by
  rw [← lowered_or r "status"]
  rfl

/-! ## What the loop returns -/

theorem waitLoop_before {before : List CoderResponse} (h : ∀ r ∈ before, stopsOn py r = false) (last : CoderResponse)
    {r : CoderResponse} (hr : stopsOn py r = true) (after : List (Except String CoderResponse)) :
    waitLoop py last (before.map .ok ++ .ok r :: after) = .ok (r, false) := by
  induction before generalizing last with
  | nil =>
    rw [List.map_nil, List.nil_append, waitLoop]
    exact if_pos hr
  | cons b before ih =>
    have hb : stopsWaiting (lowered py b.run "status") = false := h b List.mem_cons_self
    rw [List.map_cons, List.cons_append, waitLoop, hb, if_neg (by simp)]
    exact ih (fun c hc => h c (List.mem_cons_of_mem b hc)) b

/-- Stopping on an answer, the loop returns what the run in it says. -/
theorem executeCoderRun_stopsAt {a : CoderAnswers} {r : CoderResponse} {result : CoderResult} (h : StopsAt py a r)
    (hresult : executeCoderRun py a = .ok result) :
    result.status = lowered py r.run "status" ∧ result.phase = lowered py r.run "phase" ∧ result.artifacts = r.artifacts := by
  obtain ⟨hstop, before, after, hpolls, hbefore⟩ := h
  have hloop : waitLoop py {} a.polls = .ok (r, false) := by
    rw [hpolls]
    exact waitLoop_before hbefore {} hstop after
  have hrun : r.run ≠ [] := by
    intro hnil
    have htruthy := truthy_of_stops hstop
    rw [hnil] at htruthy
    cases htruthy
  unfold executeCoderRun at hresult
  rw [hloop] at hresult
  cases hcreate : a.create with
  | some text =>
    rw [hcreate] at hresult
    cases hresult
  | none =>
    rw [hcreate] at hresult
    cases hexecute : a.execute with
    | ok response =>
      rw [hexecute] at hresult
      obtain rfl := Except.ok.inj hresult
      simp [hrun]
    | error text =>
      rw [hexecute] at hresult
      obtain rfl := Except.ok.inj hresult
      simp [hrun]

/-- An answer on which the loop stops is returned by a run that polls it first. -/
theorem executeCoderRun_first {r : CoderResponse} (h : stopsOn py r = true) :
    StopsAt py { polls := [.ok r] } r ∧ ∃ result, executeCoderRun py { polls := [.ok r] } = .ok result := by
  have hloop : waitLoop py {} [.ok r] = .ok (r, false) := waitLoop_before (List.forall_mem_nil _) {} h []
  refine ⟨⟨h, [], [], rfl, by simp⟩, ?_⟩
  unfold executeCoderRun
  rw [hloop]
  exact ⟨_, rfl⟩

/-! ## The condition -/

theorem stops_iff (runId : String) (error : Json) (r : CoderResponse) :
    (stopsOn py r = true ↔ isTerminal (buildCoderResultFromResponse py runId error r).status = true) ↔
      ((r.run.get "status").truthy = true → lowered py r.run "status" ≠ "canceled") ∧
      ((r.run.get "status").truthy = false → isTerminal (lowered py r.coderRun "status") = false) := by
  rw [build_status, isTerminal_canceled]
  cases h : (r.run.get "status").truthy with
  | true =>
    have hne : stopsWaiting (lowered py r.run "status") = true → lowered py r.run "status" ≠ "canceled" := ne_canceled_of_stops
    simp only [if_true, stopsOn, forall_const, Bool.true_eq_false, false_implies, and_true]
    tauto
  | false =>
    have hstop : stopsOn py r = false := by
      rw [stopsOn, lowered_of_not h]
      decide
    rw [← isTerminal_iff]
    simp [hstop]

theorem returned_iff (runId : String) (error : Json) (r : CoderResponse) (h : stopsOn py r = true) :
    (lowered py r.run "status" = (buildCoderResultFromResponse py runId error r).status ∧
      lowered py r.run "phase" = (buildCoderResultFromResponse py runId error r).phase ∧
      r.artifacts = (buildCoderResultFromResponse py runId error r).artifacts) ↔
      ((r.run.get "phase").truthy = true ∨ lowered py r.coderRun "phase" = "") := by
  have htruthy := truthy_of_stops h
  have hstatus : lowered py r.run "status" = (buildCoderResultFromResponse py runId error r).status := by
    rw [build_status, if_pos htruthy, if_neg (ne_canceled_of_stops h)]
  have hphase : (buildCoderResultFromResponse py runId error r).phase =
      if (r.run.get "phase").truthy = true then lowered py r.run "phase" else lowered py r.coderRun "phase" :=
    lowered_or r "phase"
  have hartifacts : r.artifacts = (buildCoderResultFromResponse py runId error r).artifacts := rfl
  rw [hphase]
  cases hp : (r.run.get "phase").truthy with
  | true => simp [hstatus, ← hartifacts]
  | false =>
    rw [lowered_of_not hp]
    simp only [hstatus, ← hartifacts, true_and, and_true, Bool.false_eq_true, if_false, false_or]
    exact eq_comm

/-- The readers agree on an answer exactly when it is self-contained. -/
theorem agree_iff (runId : String) (error : Json) (r : CoderResponse) :
    Agree py runId error r ↔ SelfContained py r := by
  constructor
  · intro h
    obtain ⟨hspelled, hstated⟩ := (stops_iff runId error r).mp h.stops
    refine ⟨hspelled, hstated, fun hstop => ?_⟩
    obtain ⟨hat, result, hresult⟩ := executeCoderRun_first hstop
    obtain ⟨hs, hp, ha⟩ := executeCoderRun_stopsAt hat hresult
    have hret := h.returned _ result hat hresult
    rw [hs, hp, ha] at hret
    exact (returned_iff runId error r hstop).mp hret
  · intro h
    constructor
    · exact (stops_iff runId error r).mpr ⟨h.spelled, h.stated⟩
    · intro a result hat hresult
      obtain ⟨hs, hp, ha⟩ := executeCoderRun_stopsAt hat hresult
      rw [hs, hp, ha]
      exact (returned_iff runId error r hat.1).mpr (h.phased hat.1)

/-- ASCII lowering, for examples. -/
def plainPython : Python where
  lower s := String.ofList (s.toList.map asciiLower)
  repr _ := ""
  lower_empty := asciiLower_empty

/-- A run that the engine calls canceled is over for the supervisor and goes on for the loop. -/
theorem canceled_keeps_waiting :
    ¬ Agree plainPython "run-1" .null { run := [("status", .str "canceled"), ("phase", .str "coding")] } := by
  intro h
  have hterminal := h.stops.mpr (by decide)
  revert hterminal
  decide

end CoderReaders
