import TandemAgents.JsonNesting

/-!
# The event log of a run

`events.jsonl` as `append_event` writes it and `_load_events` reads it. The file is opened
as text, so it is seen through universal newlines; broadcasting an event is left out.
-/
namespace EventLog

open JsonData JsonText PythonText

set_option maxRecDepth 20000

/-! ## Lines of a text -/

/-- What a text file reads as: a carriage return, with or without a newline, is a newline. -/
def universalNewlines : Bool → List Char → List Char
  | _, [] => []
  | afterReturn, c :: cs =>
    if c = '\r' then '\n' :: universalNewlines true cs
    else if c = '\n' ∧ afterReturn = true then universalNewlines false cs
    else c :: universalNewlines false cs

/-- The lines of a text with their ends. -/
def lines (isEnd : Char → Bool) : List Char → List (List Char)
  | [] => []
  | c :: cs =>
    if isEnd c then [c] :: lines isEnd cs
    else
      match lines isEnd cs with
      | [] => [[c]]
      | line :: rest => (c :: line) :: rest

/-- `handle.readlines()`. -/
def readlines (content : List Char) : List (List Char) := lines (· = '\n') (universalNewlines false content)

/-- The code points `str.splitlines` breaks a line at. -/
def isBoundary (c : Char) : Bool :=
  (10 ≤ c.toNat && c.toNat ≤ 13) || (28 ≤ c.toNat && c.toNat ≤ 30) || c.toNat = 0x85 || c.toNat = 0x2028 || c.toNat = 0x2029

/-- `path.read_text().splitlines()`. -/
def splitlines (content : List Char) : List (List Char) :=
  (lines isBoundary (universalNewlines false content)).map (fun line => line.takeWhile (fun c => !isBoundary c))

/-! ## Reading and appending -/

variable (floats : Floats)

/-- A line that holds an event. -/
def loadLine (line : List Char) : Option Dict :=
  if line.all isSpace then none else (loads floats line).bind Json.asDict

/-- `_load_events`, of a file that exists. -/
def loadEvents (content : List Char) : List Dict := (splitlines content).filterMap (loadLine floats)

/-- `value + 1`; nothing where it raises. -/
def plusOne : Json → Option Json
  | .int n => some (.int (n + 1))
  | .bool b => some (.int (if b then 2 else 1))
  | .float text => some (.float (floats.succ text))
  | _ => none

/-- The number of the next event: one more than that of the last line, and where this line
cannot tell it, one more than there are lines. -/
def nextSeq : Option (List Char) → Json
  | none => .int 1
  | some content =>
    match (readlines content).getLast? with
    | none => .int 1
    | some line =>
      let read := ((loads floats line).bind Json.asDict).bind
        (fun d => plusOne floats (if d.contains "seq" then d.get "seq" else .int 0))
      read.getD (.int ((readlines content).length + 1))

/-- The arguments of `append_event` and the clock it reads; `None` is null. -/
structure Entry where
  type : String
  runId : String
  nowMs : Int
  timestamp : String
  taskId : Json
  role : Json
  repo : Json
  payload : Json
  taskId_valid : Valid floats taskId
  role_valid : Valid floats role
  repo_valid : Valid floats repo
  payload_valid : Valid floats payload

/-- A field that is written unless its value is `None`. -/
def present (key : String) : Json → Dict
  | .null => []
  | v => [(key, v)]

variable {floats}

def Entry.event (e : Entry floats) (seq : Json) : Dict :=
  [("seq", seq), ("type", .str e.type), ("timestamp_ms", .int e.nowMs), ("timestamp", .str e.timestamp),
    ("run_id", .str e.runId)] ++ present "task_id" e.taskId ++ present "role" e.role ++ present "repo" e.repo ++
    if e.payload.truthy then [("payload", e.payload)] else []

/-- `append_event`: the file afterwards and the event. -/
def appendEvent (file : Option (List Char)) (e : Entry floats) : List Char × Dict :=
  let event := e.event (nextSeq floats file)
  (file.getD [] ++ (dumps (.obj event) ++ ['\n']), event)

def appendAll : Option (List Char) → List (Entry floats) → Option (List Char) × List Dict
  | file, [] => (file, [])
  | file, e :: es =>
    let (content, event) := appendEvent file e
    let (file, events) := appendAll (some content) es
    (file, event :: events)

/-- The file that a log written from the start is cut to. -/
def cutLog (written : List (Entry floats)) (cut : Nat) : Option (List Char) :=
  (appendAll none written).1.map (fun content => content.take cut)

/-- `_load_events(path)`. -/
def recovered (floats : Floats) (file : Option (List Char)) : List Dict := (file.map (loadEvents floats)).getD []

/-- The number of the first event is below that of the second. -/
def Before (a b : Dict) : Prop := ∃ m n : Int, a.get "seq" = .int m ∧ b.get "seq" = .int n ∧ m < n

/-- What is appended to a file is found again, and the numbers of what was there and of what
is appended increase. -/
structure Survives (file : Option (List Char)) (later : List (Entry floats)) : Prop where
  returned : ∀ event ∈ (appendAll file later).2, event ∈ recovered floats (appendAll file later).1
  increasing : (recovered floats file ++ (appendAll file later).2).Pairwise Before

/-! ## Lines of a log -/

/-- Characters of a record: one byte each, and no end of a line. -/
def Printable (s : List Char) : Prop := ∀ c ∈ s, 32 ≤ c.toNat ∧ c.toNat ≤ 126

theorem Printable.append {a b : List Char} (ha : Printable a) (hb : Printable b) : Printable (a ++ b) := by
  intro c hc
  rw [List.mem_append] at hc
  exact hc.elim (ha c) (hb c)

theorem Printable.beginning {a b : List Char} (hb : Printable b) (h : a <+: b) : Printable a :=
  fun c hc => hb c (h.subset hc)

theorem printable_of_all {s : List Char} (h : s.all (fun c => 32 ≤ c.toNat && c.toNat ≤ 126) = true) : Printable s := by
  intro c hc
  have hc' := List.all_eq_true.mp h c hc
  rw [Bool.and_eq_true, decide_eq_true_eq, decide_eq_true_eq] at hc'
  exact hc'

theorem printable_escape (unit : Nat) : Printable (unicodeEscape unit) := by
  have hdigit : ∀ n, n < 16 → 32 ≤ (ByteFields.hexDigit n).toNat ∧ (ByteFields.hexDigit n).toNat ≤ 126 := by decide
  intro c hc
  simp only [unicodeEscape, List.mem_cons, List.not_mem_nil, or_false] at hc
  obtain rfl | rfl | rfl | rfl | rfl | rfl := hc
  · decide
  · decide
  all_goals exact hdigit _ (Nat.mod_lt _ (by decide))

theorem printable_escapeChar (c : Char) : Printable (escapeChar c) := by
  unfold escapeChar
  split
  · exact printable_of_all (by decide)
  split
  · exact printable_of_all (by decide)
  split
  · exact printable_of_all (by decide)
  split
  · exact printable_of_all (by decide)
  split
  · exact printable_of_all (by decide)
  split
  · exact printable_of_all (by decide)
  split
  · exact printable_of_all (by decide)
  split
  · rename_i hplain
    intro d hd
    rw [List.mem_singleton] at hd
    rw [hd]
    exact hplain
  · intro d hd
    obtain ⟨unit, -, hd⟩ := List.mem_flatMap.mp hd
    exact printable_escape unit d hd

theorem printable_string (s : String) : Printable (encodeString s) := by
  have hquote : Printable ['"'] := printable_of_all (by decide)
  have hbody : Printable (s.toList.flatMap escapeChar) := by
    intro c hc
    obtain ⟨d, -, hc⟩ := List.mem_flatMap.mp hc
    exact printable_escapeChar d c hc
  exact hquote.append (hbody.append hquote)

theorem atomChar_printable {c : Char} (h : atomChar c = true) : 32 ≤ c.toNat ∧ c.toNat ≤ 126 := by
  rw [atomChar, Bool.or_eq_true] at h
  cases h with
  | inl h =>
    rw [Char.isDigit, Bool.and_eq_true, decide_eq_true_eq, decide_eq_true_eq] at h
    have hlow : (48 : UInt32).toNat ≤ c.val.toNat := h.1
    have hhigh : c.val.toNat ≤ (57 : UInt32).toNat := h.2
    exact ⟨Nat.le_trans (by decide) hlow, Nat.le_trans hhigh (by decide)⟩
  | inr h => exact printable_of_all (s := "+-.aefilnrstuyEIN".toList) (by decide) c (List.contains_iff_mem.mp h)

theorem printable_items {items : List Json} (h : ∀ v ∈ items, Printable (dumps v)) : Printable (dumpsItems items) := by
  induction items with
  | nil => exact printable_of_all rfl
  | cons v items ih =>
    have hcomma : Printable [',', ' '] := printable_of_all (by decide)
    rw [dumpsItems]
    exact (hcomma.append (h v List.mem_cons_self)).append (ih fun w hw => h w (List.mem_cons_of_mem v hw))

theorem printable_fields {fields : Dict} (h : ∀ f ∈ fields, Printable (dumps f.2)) : Printable (dumpsFields fields) := by
  induction fields with
  | nil => exact printable_of_all rfl
  | cons f fields ih =>
    have hcomma : Printable [',', ' '] := printable_of_all (by decide)
    have hcolon : Printable [':', ' '] := printable_of_all (by decide)
    rw [dumpsFields]
    exact ((((hcomma.append (printable_string f.1)).append hcolon).append (h f List.mem_cons_self)).append
      (ih fun g hg => h g (List.mem_cons_of_mem f hg)))

/-- Every text `dumps` writes is one line of ASCII. -/
theorem printable_dumps {v : Json} (hv : Valid floats v) : Printable (dumps v) := by
  induction hv with
  | null => exact printable_of_all (by decide)
  | bool b => cases b <;> exact printable_of_all (by decide)
  | int n =>
    rw [dumps]
    exact fun c hc => atomChar_printable (JsonRoundTrip.atomChar_int n c hc)
  | float hchars _ =>
    rw [dumps]
    exact fun c hc => atomChar_printable (hchars c hc)
  | str s =>
    rw [dumps]
    exact printable_string s
  | @arr items _ ih =>
    have hopen : Printable ['['] := printable_of_all (by decide)
    have hclose : Printable [']'] := printable_of_all (by decide)
    cases items with
    | nil => exact printable_of_all (by decide)
    | cons v items =>
      rw [dumps]
      exact hopen.append (((ih v List.mem_cons_self).append
        (printable_items fun w hw => ih w (List.mem_cons_of_mem v hw))).append hclose)
  | @obj fields _ _ ih =>
    have hopen : Printable ['{'] := printable_of_all (by decide)
    have hcolon : Printable [':', ' '] := printable_of_all (by decide)
    have hclose : Printable ['}'] := printable_of_all (by decide)
    cases fields with
    | nil => exact printable_of_all (by decide)
    | cons f fields =>
      rw [dumps]
      exact hopen.append (((((printable_string f.1).append hcolon).append (ih f List.mem_cons_self)).append
        (printable_fields fun g hg => ih g (List.mem_cons_of_mem f hg))).append hclose)

end EventLog
