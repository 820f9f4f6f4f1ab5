import TandemAgents.EventLog

/-!
# A log that was cut

The lines of a log, cut anywhere, are whole records and perhaps a torn one. A record that is
appended behind whole ones is found again; one that is appended behind a torn record forms
one line with it, which is no JSON.
-/
namespace TornLog

open JsonData JsonText JsonRoundTrip JsonNesting EventLog PythonText

set_option maxRecDepth 20000

/-! ## Files made of lines -/

/-- Whole lines, and what stands behind the last of them. -/
def joined (whole : List (List Char)) (rest : List Char) : List Char :=
  (whole.map (fun line => line ++ ['\n'])).flatten ++ rest

@[simp] theorem joined_nil (rest : List Char) : joined [] rest = rest := rfl

theorem joined_cons (line : List Char) (whole : List (List Char)) (rest : List Char) :
    joined (line :: whole) rest = line ++ '\n' :: joined whole rest := by
  simp [joined]

theorem joined_append (whole : List (List Char)) (line rest : List Char) :
    joined whole (line ++ '\n' :: rest) = joined (whole ++ [line]) rest := by
  simp [joined]

theorem universalNewlines_id {s : List Char} (h : '\r' ∉ s) : universalNewlines false s = s := by
  induction s with
  | nil => rfl
  | cons c s ih =>
    rw [List.mem_cons, not_or] at h
    rw [universalNewlines, if_neg (Ne.symm h.1), if_neg (by simp), ih h.2]

theorem lines_line {isEnd : Char → Bool} {line : List Char} (h : ∀ c ∈ line, isEnd c = false) {e : Char} (he : isEnd e = true)
    (cs : List Char) : lines isEnd (line ++ e :: cs) = (line ++ [e]) :: lines isEnd cs := by
  induction line with
  | nil => simp [lines, he]
  | cons c line ih =>
    rw [List.cons_append, lines, h c List.mem_cons_self, ih fun d hd => h d (List.mem_cons_of_mem c hd)]
    rfl

theorem lines_rest {isEnd : Char → Bool} {rest : List Char} (h : ∀ c ∈ rest, isEnd c = false) :
    lines isEnd rest = if rest = [] then [] else [rest] := by
  induction rest with
  | nil => rfl
  | cons c rest ih =>
    rw [lines, h c List.mem_cons_self, ih fun d hd => h d (List.mem_cons_of_mem c hd)]
    cases rest <;> rfl

theorem lines_joined {isEnd : Char → Bool} (hnewline : isEnd '\n' = true) {whole : List (List Char)} {rest : List Char}
    (hwhole : ∀ line ∈ whole, ∀ c ∈ line, isEnd c = false) (hrest : ∀ c ∈ rest, isEnd c = false) :
    lines isEnd (joined whole rest) = whole.map (fun line => line ++ ['\n']) ++ if rest = [] then [] else [rest] := by
  induction whole with
  | nil => exact lines_rest hrest
  | cons line whole ih =>
    rw [joined_cons, lines_line (hwhole line List.mem_cons_self) hnewline,
      ih fun l hl => hwhole l (List.mem_cons_of_mem line hl)]
    rfl

theorem isBoundary_of_printable {c : Char} (h : 32 ≤ c.toNat ∧ c.toNat ≤ 126) : isBoundary c = false := by
  have h₁ : ¬ c.toNat ≤ 13 := by omega
  have h₂ : ¬ c.toNat ≤ 30 := by omega
  have h₃ : c.toNat ≠ 0x85 := by omega
  have h₄ : c.toNat ≠ 0x2028 := by omega
  have h₅ : c.toNat ≠ 0x2029 := by omega
  simp [isBoundary, h₁, h₂, h₃, h₄, h₅]

theorem ne_of_printable {c d : Char} (h : 32 ≤ c.toNat ∧ c.toNat ≤ 126) (hd : d.toNat < 32) : c ≠ d := by
  rintro rfl
  omega

theorem no_return {whole : List (List Char)} {rest : List Char} (hwhole : ∀ line ∈ whole, Printable line)
    (hrest : Printable rest) : '\r' ∉ joined whole rest := by
  intro hmem
  rw [joined, List.mem_append, List.mem_flatten] at hmem
  cases hmem with
  | inl hmem =>
    obtain ⟨ended, hended, hmem⟩ := hmem
    obtain ⟨line, hline, rfl⟩ := List.mem_map.mp hended
    rw [List.mem_append, List.mem_singleton] at hmem
    cases hmem with
    | inl hmem => exact ne_of_printable (hwhole line hline _ hmem) (by decide) rfl
    | inr hmem => exact absurd hmem (by decide)
  | inr hmem => exact ne_of_printable (hrest _ hmem) (by decide) rfl

theorem readlines_joined {whole : List (List Char)} {rest : List Char} (hwhole : ∀ line ∈ whole, Printable line)
    (hrest : Printable rest) :
    readlines (joined whole rest) = whole.map (fun line => line ++ ['\n']) ++ if rest = [] then [] else [rest] := by
  rw [readlines, universalNewlines_id (no_return hwhole hrest)]
  refine lines_joined (by decide) ?_ ?_
  · exact fun line hline c hc => decide_eq_false (ne_of_printable (hwhole line hline c hc) (by decide))
  · exact fun c hc => decide_eq_false (ne_of_printable (hrest c hc) (by decide))

theorem splitlines_joined {whole : List (List Char)} {rest : List Char} (hwhole : ∀ line ∈ whole, Printable line)
    (hrest : Printable rest) : splitlines (joined whole rest) = whole ++ if rest = [] then [] else [rest] := by
  have hkeep : ∀ line, Printable line → ∀ cs, (line ++ cs).takeWhile (fun c => !isBoundary c) =
      line ++ cs.takeWhile (fun c => !isBoundary c) := by
    intro line hline cs
    exact List.takeWhile_append_of_pos fun c hc => by rw [isBoundary_of_printable (hline c hc)]; rfl
  have hends : (whole.map (fun line => line ++ ['\n'])).map (fun line => line.takeWhile (fun c => !isBoundary c)) = whole := by
    rw [List.map_map]
    conv_rhs => rw [← List.map_id whole]
    refine List.map_congr_left ?_
    intro line hline
    rw [Function.comp, hkeep line (hwhole line hline)]
    exact List.append_nil line
  rw [splitlines, universalNewlines_id (no_return hwhole hrest), lines_joined (by decide), List.map_append, hends]
  · congr 1
    split
    · rfl
    · have hlast := hkeep rest hrest []
      rw [List.append_nil] at hlast
      rw [List.map_singleton, hlast]
      exact congrArg (· :: []) (List.append_nil rest)
  · exact fun line hline c hc => isBoundary_of_printable (hwhole line hline c hc)
  · exact fun c hc => isBoundary_of_printable (hrest c hc)

variable {floats : Floats}

theorem filterMap_line (line : List Char) : [line].filterMap (loadLine floats) = (loadLine floats line).toList := by
  cases hload : loadLine floats line <;> simp [hload]

theorem loadEvents_joined {whole : List (List Char)} {rest : List Char} (hwhole : ∀ line ∈ whole, Printable line)
    (hrest : Printable rest) :
    loadEvents floats (joined whole rest) = whole.filterMap (loadLine floats) ++ (loadLine floats rest).toList := by
  rw [loadEvents, splitlines_joined hwhole hrest, List.filterMap_append]
  congr 1
  split
  · rename_i hnil
    subst hnil
    rfl
  · exact filterMap_line rest

/-! ## Events and their lines -/

theorem present_keys (key : String) (v : Json) : List.Sublist ((present key v).map Prod.fst) [key] := by
  cases v <;> simp [present]

theorem present_valid {v : Json} (hv : Valid floats v) (key : String) : ∀ f ∈ present key v, Valid floats f.2 := by
  intro f hf
  have hmem : f = (key, v) := by
    cases v with
    | null => exact absurd hf (by simp [present])
    | bool b => exact List.mem_singleton.mp hf
    | int n => exact List.mem_singleton.mp hf
    | float text => exact List.mem_singleton.mp hf
    | str s => exact List.mem_singleton.mp hf
    | arr items => exact List.mem_singleton.mp hf
    | obj fields => exact List.mem_singleton.mp hf
  rw [hmem]
  exact hv

/-- The keys of an event come in one order and none comes twice. -/
theorem event_valid (e : Entry floats) {seq : Json} (hseq : Valid floats seq) : Valid floats (.obj (e.event seq)) := by
  have hpayload : List.Sublist
      (((if e.payload.truthy then [("payload", e.payload)] else []) : Dict).map Prod.fst) ["payload"] := by
    split <;> simp
  have hkeys : List.Sublist ((e.event seq).map Prod.fst)
      (["seq", "type", "timestamp_ms", "timestamp", "run_id"] ++ ["task_id"] ++ ["role"] ++ ["repo"] ++ ["payload"]) := by
    simp only [Entry.event, List.map_append]
    exact ((((List.Sublist.refl _).append (present_keys "task_id" e.taskId)).append (present_keys "role" e.role)).append
      (present_keys "repo" e.repo)).append hpayload
  refine .obj (hkeys.nodup (by decide)) ?_
  intro f hf
  simp only [Entry.event, List.mem_append] at hf
  obtain (((hf | hf) | hf) | hf) | hf := hf
  · simp only [List.mem_cons, List.not_mem_nil, or_false] at hf
    obtain rfl | rfl | rfl | rfl | rfl := hf
    · exact hseq
    · exact .str _
    · exact .int _
    · exact .str _
    · exact .str _
  · exact present_valid e.taskId_valid _ f hf
  · exact present_valid e.role_valid _ f hf
  · exact present_valid e.repo_valid _ f hf
  · split at hf
    · rw [List.mem_singleton] at hf
      rw [hf]
      exact e.payload_valid
    · exact absurd hf List.not_mem_nil

theorem event_seq (e : Entry floats) (seq : Json) : (e.event seq).get "seq" = seq := rfl

/-- The line of an event with a number. -/
def recordLine (e : Entry floats) (n : Int) : List Char := dumps (.obj (e.event (.int n)))

theorem recordLine_valid (e : Entry floats) (n : Int) : Valid floats (.obj (e.event (.int n))) := event_valid e (.int n)

theorem recordLine_start (e : Entry floats) (n : Int) :
    ∃ cs, recordLine e n = '{' :: '"' :: 's' :: 'e' :: 'q' :: cs := ⟨_, rfl⟩

theorem recordLine_printable (e : Entry floats) (n : Int) : Printable (recordLine e n) :=
  printable_dumps (recordLine_valid e n)

/-- A record is read with the newline behind it and without. -/
theorem loads_recordLine (e : Entry floats) (n : Int) :
    loads floats (recordLine e n) = some (.obj (e.event (.int n))) ∧
      loads floats (recordLine e n ++ ['\n']) = some (.obj (e.event (.int n))) :=
  ⟨loads_dumps (recordLine_valid e n), loads_dumps_blanks (recordLine_valid e n) (by simp [isBlank])⟩

theorem loadLine_recordLine (e : Entry floats) (n : Int) : loadLine floats (recordLine e n) = some (e.event (.int n)) := by
  obtain ⟨cs, hstart⟩ := recordLine_start e n
  have hblank : (recordLine e n).all isSpace = false := by
    rw [hstart]
    rfl
  rw [loadLine, hblank, if_neg (by decide), (loads_recordLine e n).1]
  rfl

theorem loadLine_none {line : List Char} (h : loads floats line = none) : loadLine floats line = none := by
  rw [loadLine, h]
  split <;> rfl

/-- A line holds a record, or it is no JSON. -/
def Line (floats : Floats) (line : List Char) : Prop :=
  Printable line ∧ ((∃ (e : Entry floats) (n : Int), line = recordLine e n) ∨
    loads floats line = none ∧ loads floats (line ++ ['\n']) = none)

theorem line_record (e : Entry floats) (n : Int) : Line floats (recordLine e n) :=
  ⟨recordLine_printable e n, .inl ⟨e, n, rfl⟩⟩

/-- The lines are records numbered from one. -/
def Numbered (floats : Floats) (whole : List (List Char)) : Prop :=
  ∀ (k : Nat) (line : List Char), whole[k]? = some line → ∃ e : Entry floats, line = recordLine e (k + 1)

theorem Numbered.lines {whole : List (List Char)} (h : Numbered floats whole) : ∀ line ∈ whole, Line floats line := by
  intro line hline
  obtain ⟨k, hk⟩ := List.mem_iff_getElem?.mp hline
  obtain ⟨e, rfl⟩ := h k line hk
  exact line_record e _

theorem Numbered.beginning {kept whole : List (List Char)} (h : Numbered floats whole) (hkept : kept <+: whole) :
    Numbered floats kept := by
  intro k line hk
  obtain ⟨more, rfl⟩ := hkept
  have hlt := (List.getElem?_eq_some_iff.mp hk).1
  exact h k line (by rw [List.getElem?_append_left hlt, hk])

theorem Numbered.snoc {whole : List (List Char)} (h : Numbered floats whole) (e : Entry floats) :
    Numbered floats (whole ++ [recordLine e (whole.length + 1)]) := by
  intro k line hk
  by_cases hlt : k < whole.length
  · rw [List.getElem?_append_left hlt] at hk
    exact h k line hk
  · rw [List.getElem?_append_right (by omega)] at hk
    have hk' : k = whole.length := by
      have hlen := (List.getElem?_eq_some_iff.mp hk).1
      rw [List.length_singleton] at hlen
      omega
    subst hk'
    rw [Nat.sub_self, List.getElem?_cons_zero, Option.some.injEq] at hk
    exact ⟨e, hk.symm⟩

/-- The events of such lines come in the order of their numbers. -/
theorem Numbered.events {whole : List (List Char)} (h : Numbered floats whole) :
    (whole.filterMap (loadLine floats)).Pairwise Before := by
  rw [List.pairwise_filterMap, List.pairwise_iff_getElem]
  intro i j hi hj hij a ha b hb
  obtain ⟨e, he⟩ := h i whole[i] (List.getElem?_eq_getElem hi)
  obtain ⟨f, hf⟩ := h j whole[j] (List.getElem?_eq_getElem hj)
  rw [he, loadLine_recordLine, Option.some.injEq] at ha
  rw [hf, loadLine_recordLine, Option.some.injEq] at hb
  refine ⟨i + 1, j + 1, by rw [← ha, event_seq], by rw [← hb, event_seq], by omega⟩

/-! ## Appending behind whole lines -/

theorem readlines_whole {whole : List (List Char)} (h : ∀ line ∈ whole, Printable line) :
    readlines (joined whole []) = whole.map (fun line => line ++ ['\n']) := by
  rw [readlines_joined h (printable_of_all rfl)]
  exact List.append_nil _

theorem nextSeq_of_last {content line : List Char} (hlast : (readlines content).getLast? = some line) :
    nextSeq floats (some content) = ((((loads floats line).bind Json.asDict).bind
      (fun d => plusOne floats (if d.contains "seq" then d.get "seq" else .int 0))).getD
        (.int ((readlines content).length + 1))) := by
  simp only [nextSeq, hlast]

theorem nextSeq_record {content : List Char} {e : Entry floats} {n : Int}
    (hlast : (readlines content).getLast? = some (recordLine e n ++ ['\n'])) :
    nextSeq floats (some content) = .int (n + 1) := by
  rw [nextSeq_of_last hlast, (loads_recordLine e n).2]
  rfl

theorem nextSeq_unread {content line : List Char} (hlast : (readlines content).getLast? = some line)
    (h : loads floats line = none) : nextSeq floats (some content) = .int ((readlines content).length + 1) := by
  rw [nextSeq_of_last hlast, h]
  rfl

theorem getLast?_ended {whole : List (List Char)} {line : List Char} :
    ((whole ++ [line]).map (fun line => line ++ ['\n'])).getLast? = some (line ++ ['\n']) := by simp

/-- Every number the log gives is an integer. -/
theorem nextSeq_int {whole : List (List Char)} (h : ∀ line ∈ whole, Line floats line) :
    ∃ n, nextSeq floats (some (joined whole [])) = .int n := by
  have hread := readlines_whole fun line hline => (h line hline).1
  cases List.eq_nil_or_concat' whole with
  | inl hnil =>
    subst hnil
    exact ⟨1, rfl⟩
  | inr hsnoc =>
    obtain ⟨whole, line, rfl⟩ := hsnoc
    have hlast : (readlines (joined (whole ++ [line]) [])).getLast? = some (line ++ ['\n']) := by
      rw [hread]
      exact getLast?_ended
    cases (h line (by simp)).2 with
    | inl hrecord =>
      obtain ⟨e, n, rfl⟩ := hrecord
      exact ⟨n + 1, nextSeq_record hlast⟩
    | inr hnone => exact ⟨_, nextSeq_unread hlast hnone.2⟩

theorem nextSeq_numbered {whole : List (List Char)} (h : Numbered floats whole) :
    nextSeq floats (some (joined whole [])) = .int (whole.length + 1) := by
  have hread := readlines_whole fun line hline => (h.lines line hline).1
  cases List.eq_nil_or_concat' whole with
  | inl hnil =>
    subst hnil
    rfl
  | inr hsnoc =>
    obtain ⟨whole, line, rfl⟩ := hsnoc
    obtain ⟨e, rfl⟩ := h whole.length line (by simp)
    have hlast : (readlines (joined (whole ++ [recordLine e (whole.length + 1)]) [])).getLast? =
        some (recordLine e (whole.length + 1) ++ ['\n']) := by
      rw [hread]
      exact getLast?_ended
    rw [nextSeq_record hlast, List.length_append, List.length_singleton]
    rfl

theorem appendEvent_joined {whole : List (List Char)} {rest : List Char} {e : Entry floats} {n : Int}
    (hseq : nextSeq floats (some (joined whole rest)) = .int n) :
    appendEvent (some (joined whole rest)) e = (joined (whole ++ [rest ++ recordLine e n]) [], e.event (.int n)) := by
  have hcontent : joined whole rest ++ (recordLine e n ++ ['\n']) = joined (whole ++ [rest ++ recordLine e n]) [] := by
    simp [joined]
  rw [appendEvent, hseq, ← hcontent]
  rfl

theorem appendAll_cons (file : Option (List Char)) (e : Entry floats) (es : List (Entry floats)) :
    appendAll file (e :: es) = ((appendAll (some (appendEvent file e).1) es).1,
      (appendEvent file e).2 :: (appendAll (some (appendEvent file e).1) es).2) := rfl

/-- What is appended behind whole lines becomes lines of its own, by induction on the events. -/
theorem appendAll_lines (later : List (Entry floats)) {whole : List (List Char)} (h : ∀ line ∈ whole, Line floats line) :
    ∃ more, (appendAll (some (joined whole [])) later).1 = some (joined (whole ++ more) []) ∧
      (∀ line ∈ whole ++ more, Line floats line) ∧
      more.filterMap (loadLine floats) = (appendAll (some (joined whole [])) later).2 ∧
      (Numbered floats whole → Numbered floats (whole ++ more)) := by
  induction later generalizing whole with
  | nil =>
    refine ⟨[], ?_, ?_, rfl, ?_⟩
    · rw [List.append_nil]
      rfl
    · rw [List.append_nil]
      exact h
    · rw [List.append_nil]
      exact id
  | cons e later ih =>
    obtain ⟨n, hseq⟩ := nextSeq_int h
    have hstep := appendEvent_joined (e := e) hseq
    rw [List.nil_append] at hstep
    have hlines : ∀ line ∈ whole ++ [recordLine e n], Line floats line := by
      intro line hline
      rw [List.mem_append, List.mem_singleton] at hline
      cases hline with
      | inl hline => exact h line hline
      | inr hline =>
        rw [hline]
        exact line_record e n
    obtain ⟨more, hfile, hmore, hevents, hnumbered⟩ := ih hlines
    refine ⟨recordLine e n :: more, ?_, ?_, ?_, ?_⟩
    · rw [appendAll_cons, hstep, hfile, List.append_assoc]
      rfl
    · rw [List.append_assoc] at hmore
      exact hmore
    · rw [appendAll_cons, hstep, List.filterMap_cons, loadLine_recordLine, hevents]
    · intro hwhole
      have hn : n = whole.length + 1 := by
        have hn := (nextSeq_numbered hwhole).symm.trans hseq
        cases hn
        rfl
      have hsnoc := hnumbered (by
        rw [hn]
        exact hwhole.snoc e)
      rw [List.append_assoc] at hsnoc
      exact hsnoc

theorem loadEvents_whole {whole : List (List Char)} (h : ∀ line ∈ whole, Line floats line) :
    loadEvents floats (joined whole []) = whole.filterMap (loadLine floats) := by
  rw [loadEvents_joined (fun line hline => (h line hline).1) (printable_of_all rfl)]
  exact List.append_nil _

/-- Behind whole records everything that is appended survives. -/
theorem survives_whole {whole : List (List Char)} (h : Numbered floats whole) (later : List (Entry floats)) :
    Survives (some (joined whole [])) later := by
  obtain ⟨more, hfile, hmore, hevents, hnumbered⟩ := appendAll_lines later h.lines
  constructor
  · intro event hevent
    rw [hfile, recovered, Option.map_some, Option.getD_some, loadEvents_whole hmore, List.filterMap_append, hevents]
    exact List.mem_append_right _ hevent
  · rw [recovered, Option.map_some, Option.getD_some, loadEvents_whole h.lines, ← hevents, ← List.filterMap_append]
    exact (hnumbered h).events

/-! ## Cutting the log -/

/-- A file cut anywhere is some of its lines and a beginning of the next. -/
theorem joined_cut (whole : List (List Char)) (cut : Nat) :
    ∃ kept rest, (joined whole []).take cut = joined kept rest ∧ kept <+: whole ∧
      (rest = [] ∨ ∃ line, kept ++ [line] <+: whole ∧ rest <+: line) := by
  induction whole generalizing cut with
  | nil => exact ⟨[], [], by simp, List.prefix_refl [], .inl rfl⟩
  | cons line whole ih =>
    rw [joined_cons]
    by_cases hcut : cut ≤ line.length
    · refine ⟨[], line.take cut, ?_, List.nil_prefix, .inr ⟨line, ?_, List.take_prefix cut line⟩⟩
      · rw [List.take_append_of_le_length hcut, joined_nil]
      · exact List.cons_prefix_cons.mpr ⟨rfl, List.nil_prefix⟩
    · obtain ⟨kept, rest, htake, hkept, hrest⟩ := ih (cut - line.length - 1)
      have hsplit : (line ++ '\n' :: joined whole []).take cut = line ++ '\n' :: (joined whole []).take (cut - line.length - 1) := by
        have hpos : cut - line.length = (cut - line.length - 1) + 1 := by omega
        rw [List.take_append, List.take_of_length_le (by omega), hpos, List.take_succ_cons]
        rfl
      refine ⟨line :: kept, rest, ?_, List.cons_prefix_cons.mpr ⟨rfl, hkept⟩, ?_⟩
      · rw [hsplit, htake, joined_cons]
      · cases hrest with
        | inl hnil => exact .inl hnil
        | inr hline =>
          obtain ⟨next, hnext, hbegin⟩ := hline
          exact .inr ⟨next, List.cons_prefix_cons.mpr ⟨rfl, hnext⟩, hbegin⟩

/-- A log that is written from the start is records numbered from one. -/
theorem written_log (written : List (Entry floats)) :
    ∃ whole, Numbered floats whole ∧ (appendAll none written).1.getD [] = joined whole [] := by
  cases written with
  | nil => exact ⟨[], by simp [Numbered], rfl⟩
  | cons e written =>
    obtain ⟨more, hfile, -, -, hnumbered⟩ := appendAll_lines (e :: written)
      (by simp : ∀ line ∈ ([] : List (List Char)), Line floats line)
    have hsame : appendAll none (e :: written) = appendAll (some (joined [] [])) (e :: written) := rfl
    rw [hsame, hfile]
    exact ⟨[] ++ more, hnumbered (by simp [Numbered]), rfl⟩

/-- Every character of a log is one byte, so that it is cut between characters. -/
theorem log_ascii (written : List (Entry floats)) : ∀ c ∈ (appendAll none written).1.getD [], c.toNat < 128 := by
  obtain ⟨whole, hwhole, hcontent⟩ := written_log written
  intro c hc
  rw [hcontent, joined, List.append_nil, List.mem_flatten] at hc
  obtain ⟨ended, hended, hc⟩ := hc
  obtain ⟨line, hline, rfl⟩ := List.mem_map.mp hended
  rw [List.mem_append, List.mem_singleton] at hc
  cases hc with
  | inl hc =>
    have hprint := (hwhole.lines line hline).1 c hc
    omega
  | inr hc =>
    rw [hc]
    decide

/-- A missing file and an empty one are the same to all who append. -/
theorem survives_missing (later : List (Entry floats)) : Survives none later ↔ Survives (some []) later := by
  cases later with
  | nil =>
    constructor
    · exact fun _ => ⟨by simp [appendAll], by simp [appendAll, recovered, loadEvents, splitlines, lines, universalNewlines]⟩
    · exact fun _ => ⟨by simp [appendAll], by simp [appendAll, recovered]⟩
  | cons e later =>
    constructor
    · exact fun h => ⟨h.returned, h.increasing⟩
    · exact fun h => ⟨h.returned, h.increasing⟩

/-- The file is empty, or its last line is ended. -/
def EndsWhole (file : Option (List Char)) : Prop := ∀ c, (file.getD []).getLast? = some c → c = '\n'

theorem endsWhole_joined {kept : List (List Char)} {rest : List Char} (hrest : Printable rest) :
    EndsWhole (some (joined kept rest)) ↔ rest = [] := by
  constructor
  · intro h
    cases List.eq_nil_or_concat' rest with
    | inl hnil => exact hnil
    | inr hsnoc =>
      obtain ⟨front, c, rfl⟩ := hsnoc
      have hlast : (joined kept (front ++ [c])).getLast? = some c := by
        rw [joined, ← List.append_assoc]
        exact List.getLast?_concat
      have hc := h c hlast
      exact absurd hc (ne_of_printable (hrest c (by simp)) (by decide))
  · rintro rfl c hc
    cases List.eq_nil_or_concat' kept with
    | inl hnil =>
      subst hnil
      cases hc
    | inr hsnoc =>
      obtain ⟨front, line, rfl⟩ := hsnoc
      have hlast : (joined (front ++ [line]) []).getLast? = some '\n' := by
        rw [← joined_append, joined, List.getLast?_append]
        simp
      rw [Option.getD_some, hlast, Option.some.injEq] at hc
      exact hc.symm

/-! ## Appending behind a torn record -/

/-- What a torn record and a new one make together is no JSON. -/
theorem merged_line {e : Entry floats} {n : Int} {rest : List Char} (hrest : rest <+: recordLine e n) (hne : rest ≠ [])
    (f : Entry floats) (m : Int) : Line floats (rest ++ recordLine f m) ∧ loadLine floats (rest ++ recordLine f m) = none := by
  obtain ⟨cs, hstart⟩ := recordLine_start f m
  have hvalid := recordLine_valid e n
  have hbalanced : Balanced (recordLine f m) := balanced_dumps (recordLine_valid f m)
  have hended : Balanced (recordLine f m ++ ['\n']) := hbalanced.append rfl
  have hnone : loads floats (rest ++ recordLine f m) = none := by
    rw [hstart] at hbalanced ⊢
    exact loads_merged hvalid hrest hne hbalanced
  have hnone' : loads floats (rest ++ recordLine f m ++ ['\n']) = none := by
    rw [List.append_assoc]
    rw [hstart] at hended ⊢
    exact loads_merged hvalid hrest hne hended
  exact ⟨⟨((recordLine_printable e n).beginning hrest).append (recordLine_printable f m), .inr ⟨hnone, hnone'⟩⟩,
    loadLine_none hnone⟩

/-- The number that is given behind a torn record. -/
theorem nextSeq_torn {kept : List (List Char)} (hkept : ∀ line ∈ kept, Line floats line) {e : Entry floats} {n : Int}
    {rest : List Char} (hrest : rest <+: recordLine e n) (hne : rest ≠ []) :
    ∃ m, nextSeq floats (some (joined kept rest)) = .int m := by
  have hprint := (recordLine_printable e n).beginning hrest
  have hlast : (readlines (joined kept rest)).getLast? = some rest := by
    rw [readlines_joined (fun line hline => (hkept line hline).1) hprint, if_neg hne]
    exact List.getLast?_concat
  by_cases hcut : rest = recordLine e n
  · refine ⟨n + 1, ?_⟩
    rw [nextSeq_of_last hlast, hcut, (loads_recordLine e n).1]
    rfl
  · exact ⟨_, nextSeq_unread hlast (loads_cut (recordLine_valid e n) hrest hcut)⟩

/-- The first event behind a torn record is lost: it could be found only among events with
other numbers. -/
theorem not_survives_torn {kept : List (List Char)} (hkept : ∀ line ∈ kept, Line floats line) {e : Entry floats} {n : Int}
    {rest : List Char} (hrest : rest <+: recordLine e n) (hne : rest ≠ []) (f : Entry floats) (later : List (Entry floats)) :
    ¬ Survives (some (joined kept rest)) (f :: later) := by
  intro hsurvives
  obtain ⟨m, hseq⟩ := nextSeq_torn hkept hrest hne
  have hstep := appendEvent_joined (e := f) hseq
  obtain ⟨hline, hlost⟩ := merged_line hrest hne f m
  have hlines : ∀ line ∈ kept ++ [rest ++ recordLine f m], Line floats line := by
    intro line hmem
    rw [List.mem_append, List.mem_singleton] at hmem
    cases hmem with
    | inl hmem => exact hkept line hmem
    | inr hmem =>
      rw [hmem]
      exact hline
  obtain ⟨more, hfile, hmore, hevents, -⟩ := appendAll_lines later hlines
  have hself : ¬ Before (f.event (.int m)) (f.event (.int m)) := by
    rintro ⟨i, j, hi, hj, hij⟩
    rw [event_seq, Json.int.injEq] at hi hj
    omega
  have hreturned := hsurvives.returned (f.event (.int m)) (by
    rw [appendAll_cons, hstep]
    exact List.mem_cons_self)
  have hincreasing := hsurvives.increasing
  rw [appendAll_cons, hstep, hfile, recovered, Option.map_some, Option.getD_some, loadEvents_whole hmore,
    List.filterMap_append, List.filterMap_append, filterMap_line, hlost, hevents] at hreturned
  rw [appendAll_cons, hstep, recovered, Option.map_some, Option.getD_some,
    loadEvents_joined (fun line hmem => (hkept line hmem).1) ((recordLine_printable e n).beginning hrest)] at hincreasing
  rw [List.pairwise_append] at hincreasing
  obtain ⟨-, hafter, hbefore⟩ := hincreasing
  rw [List.mem_append, List.mem_append] at hreturned
  obtain (hold | hnone) | hnew := hreturned
  · exact hself (hbefore _ (List.mem_append_left _ hold) _ List.mem_cons_self)
  · exact absurd hnone (by simp)
  · exact hself ((List.pairwise_cons.mp hafter).1 _ hnew)

/-- Nothing is appended: what is left of the log is in order. -/
theorem survives_alone {kept : List (List Char)} {rest : List Char} {whole : List (List Char)}
    (hwhole : Numbered floats whole) (hkept : kept <+: whole)
    (hrest : rest = [] ∨ ∃ line, kept ++ [line] <+: whole ∧ rest <+: line) :
    Survives (some (joined kept rest)) ([] : List (Entry floats)) := by
  refine ⟨by simp [appendAll], ?_⟩
  rw [appendAll, List.append_nil, recovered, Option.map_some, Option.getD_some]
  cases hrest with
  | inl hnil =>
    subst hnil
    rw [loadEvents_whole (hwhole.beginning hkept).lines]
    exact (hwhole.beginning hkept).events
  | inr hline =>
    obtain ⟨line, hnext, hbegin⟩ := hline
    have hnumbered := hwhole.beginning hnext
    obtain ⟨e, rfl⟩ := hnumbered kept.length line (by simp)
    rw [loadEvents_joined (fun l hl => ((hwhole.beginning hkept).lines l hl).1)
      ((recordLine_printable e _).beginning hbegin)]
    by_cases hcut : rest = recordLine e (kept.length + 1)
    · have hevents := hnumbered.events
      rw [List.filterMap_append, filterMap_line] at hevents
      rw [hcut]
      exact hevents
    · rw [loadLine_none (loads_cut (recordLine_valid e _) hbegin hcut), Option.toList_none, List.append_nil]
      exact (hwhole.beginning hkept).events

/-- A log that was cut survives exactly if nothing is appended to it or its last line is
ended. -/
theorem survives_iff (written : List (Entry floats)) (cut : Nat) (later : List (Entry floats)) :
    Survives (cutLog written cut) later ↔ later = [] ∨ EndsWhole (cutLog written cut) := by
  obtain ⟨whole, hwhole, hcontent⟩ := written_log written
  obtain ⟨kept, rest, htake, hkept, hrest⟩ := joined_cut whole cut
  have hfile : (cutLog written cut).getD [] = joined kept rest := by
    rw [cutLog, ← htake, ← hcontent]
    cases (appendAll none written).1 <;> simp
  have hprint : Printable rest := by
    cases hrest with
    | inl hnil =>
      rw [hnil]
      exact printable_of_all rfl
    | inr hline =>
      obtain ⟨line, hnext, hbegin⟩ := hline
      have hmem : line ∈ whole := hnext.subset (by simp)
      exact (hwhole.lines line hmem).1.beginning hbegin
  have hsame : Survives (cutLog written cut) later ↔ Survives (some (joined kept rest)) later := by
    rw [← hfile]
    cases hcut : cutLog written cut with
    | none => exact survives_missing later
    | some content => exact Iff.rfl
  have hends : EndsWhole (cutLog written cut) ↔ rest = [] := by
    rw [← (endsWhole_joined hprint : EndsWhole (some (joined kept rest)) ↔ rest = []), EndsWhole, EndsWhole, hfile, Option.getD_some]
  rw [hsame, hends]
  constructor
  · intro h
    cases later with
    | nil => exact .inl rfl
    | cons f later =>
      right
      cases hrest with
      | inl hnil => exact hnil
      | inr hline =>
        obtain ⟨line, hnext, hbegin⟩ := hline
        obtain ⟨e, rfl⟩ := hwhole.beginning hnext kept.length line (by simp)
        by_cases hne : rest = []
        · exact hne
        · exact absurd h (not_survives_torn (hwhole.beginning hkept).lines hbegin hne f later)
  · intro h
    cases h with
    | inl hnil =>
      subst hnil
      exact survives_alone hwhole hkept hrest
    | inr hnil =>
      subst hnil
      exact survives_whole (hwhole.beginning hkept) later

/-! ## A log that was cut in its only line -/

def sampleFloats : Floats := ⟨id, id⟩

def sampleEntry (type : String) : Entry sampleFloats where
  type := type
  runId := "r"
  nowMs := 1
  timestamp := "t"
  taskId := .null
  role := .null
  repo := .null
  payload := .null
  taskId_valid := .null
  role_valid := .null
  repo_valid := .null
  payload_valid := .null

/-- Six characters are left of the first event, and the second is lost with them. -/
theorem sample_lost : ¬ Survives (cutLog [sampleEntry "run.created"] 6) [sampleEntry "run.blocked"] := by
  intro h
  have hempty : (recovered sampleFloats (appendAll (cutLog [sampleEntry "run.created"] 6) [sampleEntry "run.blocked"]).1).length = 0 := by
    decide +kernel
  have hmem := h.returned ((sampleEntry "run.blocked").event (.int 2)) List.mem_cons_self
  rw [List.length_eq_zero_iff.mp hempty] at hmem
  exact absurd hmem List.not_mem_nil

end TornLog
