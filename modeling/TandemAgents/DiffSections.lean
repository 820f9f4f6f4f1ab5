import TandemAgents.Blocks
import TandemAgents.EventLog
import TandemAgents.FailedResults

/-!
# Filtering a diff to the files that are listed

A diff is filtered line by line: a line that begins with `diff --git ` opens a section, and its
fourth word names the file. The lines are those of `str.splitlines`, which breaks at more
characters than git ends a line with, and words are what blanks part, which git leaves in a name.
-/
namespace DiffSections

open EventLog (isBoundary)
open FailedResults (normalizeRepoPath)
open PythonText (isSpace)

set_option maxRecDepth 20000

/-! ## Lines with their ends -/

/-- `text.splitlines(keepends=True)`. -/
def splitlinesKept : List Char → List (List Char)
  | [] => []
  | [c] => [[c]]
  | c :: d :: cs =>
    if c = '\r' ∧ d = '\n' then [c, d] :: splitlinesKept cs
    else if isBoundary c then [c] :: splitlinesKept (d :: cs)
    else
      match splitlinesKept (d :: cs) with
      | [] => [[c]]
      | line :: rest => (c :: line) :: rest

/-- How a line ends. -/
inductive IsEnd : List Char → Prop
  | one (c : Char) : isBoundary c = true → IsEnd [c]
  | pair : IsEnd ['\r', '\n']

/-- Lines as they are split: only the last one may lack an end, and a line feed behind a carriage
return belongs to it. -/
inductive Lines : List (List Char) → Prop
  | nil : Lines []
  | last (core : List Char) : core ≠ [] → (∀ c ∈ core, isBoundary c = false) → Lines [core]
  | ended (core : List Char) {ending : List Char} {rest : List (List Char)} : (∀ c ∈ core, isBoundary c = false) → IsEnd ending →
      (ending = ['\r'] → rest.flatten.head? ≠ some '\n') → Lines rest → Lines ((core ++ ending) :: rest)

/-- A text whose last line has its line feed. -/
def Ended (text : List Char) : Prop := ∀ c, text.getLast? = some c → c = '\n'

theorem Ended.of_last {text : List Char} (h : text.getLast? = some '\n') : Ended text :=
  fun _ hc => Option.some_inj.mp (hc.symm.trans h)

theorem splitlinesKept_flatten (text : List Char) : (splitlinesKept text).flatten = text := by
  fun_induction splitlinesKept text with
  | case1 => rfl
  | case2 c => rfl
  | case3 c d cs h ih => rw [List.flatten_cons, ih]; rfl
  | case4 c d cs hpair hc ih => rw [List.flatten_cons, ih]; rfl
  | case5 c d cs hpair hc hnone ih =>
    rw [hnone] at ih
    cases ih
  | case6 c d cs hpair hc line rest hline ih =>
    rw [hline] at ih
    rw [List.flatten_cons, List.cons_append, ← ih, List.flatten_cons]

theorem Lines.ne_nil {line : List Char} {rest : List (List Char)} (h : Lines (line :: rest)) : line ≠ [] := by
  cases h with
  | last _ hne _ => exact hne
  | ended _ _ hend _ _ =>
    cases hend with
    | one c _ => simp
    | pair => simp

/-- A character that is no boundary in front of the first line. -/
theorem Lines.cons {c : Char} {line : List Char} {rest : List (List Char)} (hc : isBoundary c = false) (h : Lines (line :: rest)) :
    Lines ((c :: line) :: rest) := by
  have hcore : ∀ {core : List Char}, (∀ d ∈ core, isBoundary d = false) → ∀ d ∈ c :: core, isBoundary d = false :=
    fun hall => List.forall_mem_cons.mpr ⟨hc, hall⟩
  cases h with
  | last _ _ hall => exact .last _ (List.cons_ne_nil c line) (hcore hall)
  | ended _ hall hend hnext hrest => exact .ended _ (hcore hall) hend hnext hrest

theorem lines_splitlinesKept (text : List Char) : Lines (splitlinesKept text) := by
  fun_induction splitlinesKept text with
  | case1 => exact .nil
  | case2 c =>
    cases hc : isBoundary c with
    | true => exact .ended [] (List.forall_mem_nil _) (.one c hc) (fun _ => nofun) .nil
    | false => exact .last _ (List.cons_ne_nil c []) (by simpa using hc)
  | case3 c d cs h ih =>
    obtain ⟨rfl, rfl⟩ := h
    exact .ended [] (List.forall_mem_nil _) .pair (fun h => by cases h) ih
  | case4 c d cs hpair hc ih =>
    apply Lines.ended [] (List.forall_mem_nil _) (.one c hc) _ ih
    intro hreturn hfeed
    rw [splitlinesKept_flatten, List.head?_cons] at hfeed
    exact hpair ⟨by simpa using hreturn, by simpa using hfeed⟩
  | case5 c d cs hpair hc hnone ih => exact .last _ (List.cons_ne_nil c []) (by simpa using hc)
  | case6 c d cs hpair hc line rest hline ih =>
    rw [hline] at ih
    exact ih.cons (by simpa using hc)

theorem split_cons {c : Char} {text line : List Char} {rest : List (List Char)} (hc : isBoundary c = false)
    (h : splitlinesKept text = line :: rest) : splitlinesKept (c :: text) = (c :: line) :: rest := by
  cases text with
  | nil => cases h
  | cons d ds =>
    have hreturn : c ≠ '\r' := by
      rintro rfl
      cases hc
    rw [splitlinesKept, if_neg fun hpair => hreturn hpair.1, if_neg (by simp [hc]), h]

theorem split_ended {core ending more : List Char} (hcore : ∀ c ∈ core, isBoundary c = false) (hend : IsEnd ending)
    (hnext : ending = ['\r'] → more.head? ≠ some '\n') :
    splitlinesKept (core ++ ending ++ more) = (core ++ ending) :: splitlinesKept more := by
  induction core with
  | nil =>
    cases hend with
    | pair => rfl
    | one c hc =>
      cases more with
      | nil => rfl
      | cons d ds =>
        have hpair : ¬ (c = '\r' ∧ d = '\n') := by
          rintro ⟨rfl, rfl⟩
          exact hnext rfl rfl
        rw [List.nil_append, List.singleton_append, splitlinesKept, if_neg hpair, if_pos hc]
  | cons c core ih =>
    obtain ⟨hc, hcore⟩ := List.forall_mem_cons.mp hcore
    exact split_cons hc (ih hcore)

/-- Lines are split back into themselves. -/
theorem Lines.split {ls : List (List Char)} (h : Lines ls) : splitlinesKept ls.flatten = ls := by
  induction h with
  | nil => rfl
  | last core hne hcore =>
    rw [List.flatten_singleton]
    induction core with
    | nil => exact absurd rfl hne
    | cons c core ih =>
      obtain ⟨hc, hcore⟩ := List.forall_mem_cons.mp hcore
      cases core with
      | nil => rfl
      | cons d ds => exact split_cons hc (ih (List.cons_ne_nil d ds) hcore)
  | ended core hcore hend hnext hrest ih => rw [List.flatten_cons, split_ended hcore hend hnext, ih]

theorem Lines.flatten_ne_nil {line : List Char} {rest : List (List Char)} (h : Lines (line :: rest)) :
    (line :: rest).flatten ≠ [] := by
  rw [List.flatten_cons]
  exact List.append_ne_nil_of_left_ne_nil h.ne_nil _

theorem Lines.append {ls ms : List (List Char)} (h : Lines ls) (hended : Ended ls.flatten) (hms : Lines ms) : Lines (ls ++ ms) := by
  induction h with
  | nil => exact hms
  | last core hne hcore =>
    obtain ⟨start, c, rfl⟩ := List.eq_nil_or_concat core |>.resolve_left hne
    have hc := hended c (by simp)
    rw [hc] at hcore
    cases hcore '\n' (by simp)
  | @ended core ending rest hcore hend hnext hrest ih =>
    cases rest with
    | nil =>
      apply Lines.ended core hcore hend _ hms
      rintro rfl
      cases hended '\r' (by simp)
    | cons line rest =>
      have hlast : Ended (line :: rest).flatten := by
        intro c hc
        apply hended c
        rw [List.flatten_cons, List.getLast?_append, hc, Option.some_or]
      apply Lines.ended core hcore hend _ (ih hlast)
      intro hreturn
      rw [List.flatten_append, List.head?_append_of_ne_nil _ hrest.flatten_ne_nil]
      exact hnext hreturn

/-- A text whose lines are all ended is split apart from what follows. -/
theorem splitlinesKept_append {text : List Char} (h : Ended text) (more : List Char) :
    splitlinesKept (text ++ more) = splitlinesKept text ++ splitlinesKept more := by
  have hlines : Lines (splitlinesKept text ++ splitlinesKept more) := by
    apply (lines_splitlinesKept text).append _ (lines_splitlinesKept more)
    rwa [splitlinesKept_flatten]
  have hsplit := hlines.split
  rwa [List.flatten_append, splitlinesKept_flatten, splitlinesKept_flatten] at hsplit

theorem Ended.append {text more : List Char} (h : Ended text) (hmore : Ended more) : Ended (text ++ more) := by
  intro c hc
  rw [List.getLast?_append] at hc
  cases hlast : more.getLast? with
  | some d =>
    rw [hlast, Option.some_or] at hc
    exact hmore c (hlast.trans hc)
  | none =>
    rw [hlast, Option.none_or] at hc
    exact h c hc

section
variable {isHead keep : List Char → Bool} (hheads : ∀ line, isHead line = true → ∃ c, line.head? = some c ∧ c ≠ '\n')
include hheads

theorem head_flatten {line : List Char} {rest : List (List Char)} (h : isHead line = true) :
    (line :: rest).flatten.head? ≠ some '\n' := by
  obtain ⟨c, hc, hfeed⟩ := hheads line h
  rw [List.flatten_cons, List.head?_append, hc, Option.some_or]
  simpa using hfeed

/-- What is kept from outside of a block begins with a head. -/
theorem select_outside (ls : List (List Char)) : (Blocks.select isHead keep false ls).flatten.head? ≠ some '\n' := by
  induction ls with
  | nil => simp [Blocks.select]
  | cons line ls ih =>
    rw [Blocks.select, if_neg Bool.false_ne_true]
    split
    · rename_i hhead
      split
      · exact head_flatten hheads hhead
      · exact ih
    · exact ih

theorem select_inside {ls : List (List Char)} (h : Lines ls) (hnext : ls.flatten.head? ≠ some '\n') :
    (Blocks.select isHead keep true ls).flatten.head? ≠ some '\n' := by
  cases ls with
  | nil => simp [Blocks.select]
  | cons line ls =>
    rw [Blocks.select, if_pos rfl]
    split
    · rename_i hhead
      split
      · exact head_flatten hheads hhead
      · exact select_outside hheads ls
    · rw [List.flatten_cons, List.head?_append_of_ne_nil _ h.ne_nil] at hnext ⊢
      exact hnext

/-- The lines that are kept are split as they were. -/
theorem Lines.select {ls : List (List Char)} (h : Lines ls) (inside : Bool) : Lines (Blocks.select isHead keep inside ls) := by
  induction h generalizing inside with
  | nil => exact .nil
  | last core hne hcore =>
    rw [Blocks.select, Blocks.select, Blocks.select]
    have hlast : Lines [core] := .last core hne hcore
    split <;> split <;> first | exact hlast | exact .nil
  | @ended core ending rest hcore hend hnext hrest ih =>
    have hcons : Lines ((core ++ ending) :: Blocks.select isHead keep true rest) :=
      .ended core hcore hend (fun hreturn => select_inside hheads hrest (hnext hreturn)) (ih true)
    rw [Blocks.select]
    split <;> split <;> first | exact hcons | exact ih false

end

/-! ## The filter -/

/-- `line.startswith("diff --git ")`. -/
def isHeader (line : List Char) : Bool := "diff --git ".toList.isPrefixOf line

/-- `line.split()`. -/
def splitWords (line : List Char) : List (List Char) := (line.splitOnP isSpace).filter fun word => decide (word ≠ [])

/-- The path that a header is read as. -/
def headerPath (line : List Char) : String :=
  match splitWords line with
  | _ :: _ :: _ :: word :: _ =>
    normalizeRepoPath (String.ofList (if "b/".toList.isPrefixOf word then word.drop 2 else word))
  | _ => ""

/-- The listed files as the filter spells them. -/
def allowedFiles (changedFiles : List String) : List String :=
  (changedFiles.map normalizeRepoPath).filter fun path => decide (path ≠ "")

structure Scan where
  sections : List (List Char)
  currentLines : List (List Char)
  includeCurrent : Bool

/-- `flush`. -/
def Scan.flush (s : Scan) : Scan :=
  { s with
    sections := if s.includeCurrent && !s.currentLines.isEmpty then s.sections ++ [s.currentLines.flatten] else s.sections
    currentLines := [] }

def scanLine (allowed : List String) (s : Scan) (line : List Char) : Scan :=
  if isHeader line then
    let included := decide (headerPath line ∈ allowed)
    { s.flush with includeCurrent := included, currentLines := if included then [line] else [] }
  else if s.includeCurrent then { s with currentLines := s.currentLines ++ [line] }
  else s

/-- `_filter_diff_text_to_files`. -/
def filterDiffTextToFiles (diffText : List Char) (changedFiles : List String) : List Char :=
  let allowed := allowedFiles changedFiles
  if allowed.isEmpty then []
  else ((splitlinesKept diffText).foldl (scanLine allowed) ⟨[], [], false⟩).flush.sections.flatten

theorem flush_sections {s : Scan} (h : s.includeCurrent = false → s.currentLines = []) :
    s.flush.sections.flatten = s.sections.flatten ++ s.currentLines.flatten := by
  rw [Scan.flush]
  cases hinc : s.includeCurrent with
  | false => simp [h hinc]
  | true =>
    cases hlines : s.currentLines with
    | nil => simp
    | cons line lines => simp

/-- The sections so far, the lines held back, and what is still kept of the rest. -/
theorem foldl_scanLine (allowed : List String) (lines : List (List Char)) {s : Scan}
    (h : s.includeCurrent = false → s.currentLines = []) :
    (lines.foldl (scanLine allowed) s).flush.sections.flatten = s.sections.flatten ++ s.currentLines.flatten ++
      (Blocks.select isHeader (fun line => decide (headerPath line ∈ allowed)) s.includeCurrent lines).flatten := by
  induction lines generalizing s with
  | nil =>
    rw [List.foldl_nil, flush_sections h, Blocks.select]
    simp
  | cons line lines ih =>
    rw [List.foldl_cons, scanLine, Blocks.select]
    by_cases hhead : isHeader line = true
    · rw [if_pos hhead, if_pos hhead, ih fun hnot => if_neg (Bool.eq_false_iff.mp hnot)]
      simp only [flush_sections h]
      cases decide (headerPath line ∈ allowed) with
      | true => simp
      | false => simp
    · rw [if_neg hhead, if_neg hhead]
      cases hinc : s.includeCurrent with
      | true =>
        rw [if_pos rfl, if_pos rfl, ih fun hnot => by simp at hnot]
        simp
      | false =>
        rw [if_neg Bool.false_ne_true, if_neg Bool.false_ne_true, ih h, hinc]

/-- The filter keeps the blocks of lines whose header is read as a listed file. -/
theorem filter_eq_select (diffText : List Char) (changedFiles : List String) :
    filterDiffTextToFiles diffText changedFiles =
      (Blocks.select isHeader (fun line => decide (headerPath line ∈ allowedFiles changedFiles)) false
        (splitlinesKept diffText)).flatten := by
  rw [filterDiffTextToFiles]
  split
  · rename_i hempty
    rw [List.isEmpty_iff.mp hempty, Blocks.select_eq]
    simp
  · rw [foldl_scanLine _ _ fun _ => rfl]
    simp

theorem isHeader_append (more : List Char) : isHeader ("diff --git ".toList ++ more) = true :=
  List.isPrefixOf_iff_prefix.mpr (List.prefix_append _ more)

theorem isHeader_head {line : List Char} (h : isHeader line = true) : ∃ c, line.head? = some c ∧ c ≠ '\n' := by
  obtain ⟨rest, hrest⟩ := List.isPrefixOf_iff_prefix.mp h
  refine ⟨'d', ?_, by decide⟩
  rw [← hrest]
  rfl

/-- The lines of a filtered diff are the kept lines. -/
theorem splitlinesKept_filter (diffText : List Char) (changedFiles : List String) :
    splitlinesKept (filterDiffTextToFiles diffText changedFiles) =
      Blocks.select isHeader (fun line => decide (headerPath line ∈ allowedFiles changedFiles)) false (splitlinesKept diffText) := by
  rw [filter_eq_select]
  exact ((lines_splitlinesKept diffText).select (fun _ => isHeader_head) false).split

/-- Filtering once more changes nothing. -/
theorem filter_filter (diffText : List Char) (changedFiles : List String) :
    filterDiffTextToFiles (filterDiffTextToFiles diffText changedFiles) changedFiles =
      filterDiffTextToFiles diffText changedFiles := by
  rw [filter_eq_select (filterDiffTextToFiles diffText changedFiles), splitlinesKept_filter, Blocks.select_select,
    ← filter_eq_select]

/-! ## A diff as git prints it -/

/-- A name in a header. A name with an unusual character is quoted, one with a blank is not. -/
def headerName (side path : String) : List Char :=
  let name := (side ++ path).toList
  if name.all fun c => GitStatus.isPlainChar c || decide (c = ' ') then name
  else '"' :: name.flatMap GitStatus.escapeChar ++ ['"']

/-- What git prints for a file; `body` is everything behind the header line. -/
structure FileSection where
  oldPath : String
  newPath : String
  body : List Char
  ended : Ended body
  body_lines : ∀ line ∈ body.splitOn '\n', isHeader line = false

def FileSection.text (s : FileSection) : List Char :=
  "diff --git ".toList ++ (headerName "a/" s.oldPath ++ ' ' :: headerName "b/" s.newPath ++ '\n' :: s.body)

/-- The list names the file, as it stands there or as the filter spells it. -/
def FileSection.isListed (changedFiles : List String) (s : FileSection) : Bool :=
  decide (s.newPath ∈ changedFiles) || decide (s.newPath ∈ allowedFiles changedFiles)

/-- A diff, with the text of an artifact before and behind it. -/
structure DiffText where
  before : List Char
  sections : List FileSection
  after : List Char
  ended : Ended before

def DiffText.text (d : DiffText) : List Char := d.before ++ d.sections.flatMap FileSection.text ++ d.after

/-- The sections of the listed files. -/
def DiffText.wanted (changedFiles : List String) (d : DiffText) : List Char :=
  (d.sections.filter (FileSection.isListed changedFiles)).flatMap FileSection.text

/-- Every line that the filter takes for a header is read as what it stands for: in a section as the section's
file, elsewhere as no listed file. No text stands between a listed last section and the next header. -/
structure ReadAsNamed (changedFiles : List String) (d : DiffText) : Prop where
  inside : ∀ s ∈ d.sections, ∀ line ∈ splitlinesKept s.text, isHeader line = true →
    (headerPath line ∈ allowedFiles changedFiles ↔ s.isListed changedFiles = true)
  around : ∀ line ∈ splitlinesKept d.before ++ splitlinesKept d.after, isHeader line = true →
    headerPath line ∉ allowedFiles changedFiles
  ending : ∀ s, d.sections.getLast? = some s → s.isListed changedFiles = true → d.after ≠ [] → isHeader d.after = true

theorem split_start {core : List Char} (hne : core ≠ []) (hcore : ∀ c ∈ core, isBoundary c = false) (more : List Char) :
    ∃ line rest, splitlinesKept (core ++ more) = (core ++ line) :: rest := by
  induction core with
  | nil => exact absurd rfl hne
  | cons c core ih =>
    obtain ⟨hc, hcore⟩ := List.forall_mem_cons.mp hcore
    by_cases hnil : core = []
    · subst hnil
      cases hmore : splitlinesKept more with
      | nil =>
        have hempty := splitlinesKept_flatten more
        rw [hmore] at hempty
        rw [← hempty]
        exact ⟨[], [], rfl⟩
      | cons line rest => exact ⟨line, rest, split_cons hc hmore⟩
    · obtain ⟨line, rest, hline⟩ := ih hnil hcore
      exact ⟨line, rest, split_cons hc hline⟩

theorem header_plain : ∀ c ∈ "diff --git ".toList, isBoundary c = false := by
  have hall : ("diff --git ".toList.all fun c => !isBoundary c) = true := by decide
  intro c hc
  simpa using List.all_eq_true.mp hall c hc

/-- A text begins with a header if its first line does. -/
theorem first_header {text : List Char} (h : isHeader text = true) :
    ∃ line rest, splitlinesKept text = line :: rest ∧ isHeader line = true := by
  obtain ⟨more, rfl⟩ := List.isPrefixOf_iff_prefix.mp h
  obtain ⟨line, rest, hline⟩ := split_start (by decide) header_plain more
  exact ⟨_, rest, hline, isHeader_append line⟩

theorem front_eq_nil_iff {text : List Char} :
    Blocks.front isHeader (splitlinesKept text) = [] ↔ (text ≠ [] → isHeader text = true) := by
  constructor
  · intro h hne
    cases hlines : splitlinesKept text with
    | nil =>
      have hempty := splitlinesKept_flatten text
      rw [hlines] at hempty
      exact absurd hempty.symm hne
    | cons line rest =>
      cases hhead : isHeader line with
      | false =>
        rw [hlines, Blocks.front_cons_other hhead] at h
        cases h
      | true =>
        obtain ⟨more, hmore⟩ := List.isPrefixOf_iff_prefix.mp hhead
        rw [← splitlinesKept_flatten text, hlines, List.flatten_cons, ← hmore, List.append_assoc]
        exact isHeader_append _
  · intro h
    by_cases hnil : text = []
    · rw [hnil]
      rfl
    · obtain ⟨line, rest, hlines, hhead⟩ := first_header (h hnil)
      rw [hlines]
      exact Blocks.front_cons_head hhead rest

namespace FileSection

variable (s : FileSection)

theorem first_line : ∃ line rest, splitlinesKept s.text = line :: rest ∧ isHeader line = true :=
  first_header (isHeader_append _)

theorem text_ended : Ended s.text := by
  have hheader : ∀ text : List Char, Ended (text ++ ['\n']) := by
    intro text c hc
    simpa using hc.symm
  have hsplit : ∀ a b c d : List Char, a ++ (b ++ ' ' :: c ++ '\n' :: d) = a ++ (b ++ ' ' :: c) ++ ['\n'] ++ d := by
    intro a b c d
    simp
  have hgoal : ∀ a b c d : List Char, Ended d → Ended (a ++ (b ++ ' ' :: c ++ '\n' :: d)) := by
    intro a b c d hd
    rw [hsplit]
    exact (hheader _).append hd
  exact hgoal _ _ _ _ s.ended

end FileSection

theorem sections_ended (ss : List FileSection) : Ended (ss.flatMap FileSection.text) := by
  induction ss with
  | nil => exact fun _ => nofun
  | cons s ss ih => exact s.text_ended.append ih

theorem splitlinesKept_sections (ss : List FileSection) :
    splitlinesKept (ss.flatMap FileSection.text) = ss.flatMap fun s => splitlinesKept s.text := by
  induction ss with
  | nil => rfl
  | cons s ss ih => rw [List.flatMap_cons, splitlinesKept_append s.text_ended, ih, List.flatMap_cons]

/-! ## What is kept -/

namespace DiffText

variable (changedFiles : List String) (d : DiffText)

/-- The blocks in front of what follows the last section. -/
def leading : List (Blocks.Entry (List Char)) :=
  (Blocks.cut isHeader (splitlinesKept d.before)).map (fun b => ⟨false, b, []⟩) ++
    d.sections.flatMap fun s => (Blocks.cut isHeader (splitlinesKept s.text)).map fun b => ⟨s.isListed changedFiles, b, []⟩

/-- Every block of the text, with the text that the last section runs on into. -/
def entries : List (Blocks.Entry (List Char)) :=
  Blocks.addToLast (Blocks.front isHeader (splitlinesKept d.after)) (leading changedFiles d) ++
    (Blocks.cut isHeader (splitlinesKept d.after)).map fun b => ⟨false, b, []⟩

variable {changedFiles d}

theorem leading_added : ∀ e ∈ leading changedFiles d, e.added = [] := by
  intro e he
  rcases List.mem_append.mp he with he | he
  · obtain ⟨b, -, rfl⟩ := List.mem_map.mp he
    rfl
  · obtain ⟨s, -, he⟩ := List.mem_flatMap.mp he
    obtain ⟨b, -, rfl⟩ := List.mem_map.mp he
    rfl

theorem lines_text : splitlinesKept d.text =
    splitlinesKept d.before ++ (d.sections.flatMap fun s => splitlinesKept s.text) ++ splitlinesKept d.after := by
  rw [text, splitlinesKept_append (d.ended.append (sections_ended d.sections)), splitlinesKept_append d.ended,
    splitlinesKept_sections]

theorem cut_sections (ss : List FileSection) : Blocks.cut isHeader (ss.flatMap fun s => splitlinesKept s.text) =
    ss.flatMap fun s => Blocks.cut isHeader (splitlinesKept s.text) :=
  Blocks.cut_flatMap fun s _ => s.first_line

theorem leading_blocks : (leading changedFiles d).map Blocks.Entry.own =
    Blocks.cut isHeader (splitlinesKept d.before ++ d.sections.flatMap fun s => splitlinesKept s.text) := by
  rw [Blocks.cut_append, Blocks.front_flatMap fun s _ => s.first_line, Blocks.addLast_nil, cut_sections, leading,
    List.map_append, List.map_map, List.map_flatMap]
  simp only [List.map_map, Function.comp_def, List.map_id']

theorem entries_blocks : ((entries changedFiles d).map fun e => e.own ++ e.added) = Blocks.cut isHeader (splitlinesKept d.text) := by
  rw [entries, List.map_append, Blocks.addToLast_blocks _ leading_added, leading_blocks, lines_text,
    Blocks.cut_append (splitlinesKept d.before ++ _) (splitlinesKept d.after), List.map_map]
  simp only [Function.comp_def, List.append_nil, List.map_id']

theorem filter_none {α : Type} {p : α → Bool} {xs : List α} (h : ∀ x ∈ xs, p x = false) : xs.filter p = [] :=
  List.filter_eq_nil_iff.mpr fun x hx => by simp [h x hx]

theorem entries_wanted : ((entries changedFiles d).filter Blocks.Entry.wanted).map Blocks.Entry.own =
    (d.sections.filter (FileSection.isListed changedFiles)).flatMap fun s => Blocks.cut isHeader (splitlinesKept s.text) := by
  have hbefore : ((Blocks.cut isHeader (splitlinesKept d.before)).map fun b => (⟨false, b, []⟩ : Blocks.Entry (List Char))).filter
      Blocks.Entry.wanted = [] := filter_none (by simp)
  have hafter : ((Blocks.cut isHeader (splitlinesKept d.after)).map fun b => (⟨false, b, []⟩ : Blocks.Entry (List Char))).filter
      Blocks.Entry.wanted = [] := filter_none (by simp)
  rw [entries, List.filter_append, List.map_append, hafter, Blocks.addToLast_wanted, leading, List.filter_append, hbefore,
    List.nil_append, List.map_nil, List.append_nil]
  induction d.sections with
  | nil => rfl
  | cons s ss ih =>
    rw [List.flatMap_cons, List.filter_append, List.map_append, ih, List.filter_cons]
    cases hs : s.isListed changedFiles with
    | true =>
      rw [if_pos rfl, List.flatMap_cons, List.filter_eq_self.mpr (by simp), List.map_map]
      simp only [Function.comp_def, List.map_id']
    | false =>
      rw [if_neg Bool.false_ne_true, filter_none (by simp)]
      rfl

theorem cut_text (s : FileSection) : (Blocks.cut isHeader (splitlinesKept s.text)).flatten.flatten = s.text := by
  obtain ⟨line, rest, hlines, hhead⟩ := s.first_line
  have hall := @Blocks.front_append_cut _ isHeader (splitlinesKept s.text)
  rw [hlines, Blocks.front_cons_head hhead, List.nil_append] at hall
  rw [hlines, hall, ← hlines, splitlinesKept_flatten]

theorem wanted_eq : d.wanted changedFiles =
    ((entries changedFiles d).filter Blocks.Entry.wanted |>.map Blocks.Entry.own).flatten.flatten := by
  rw [entries_wanted, wanted]
  induction d.sections.filter (FileSection.isListed changedFiles) with
  | nil => rfl
  | cons s ss ih => rw [List.flatMap_cons, List.flatMap_cons, List.flatten_append, List.flatten_append, cut_text, ih]

/-- The blocks of the listed sections are those of what is wanted. -/
theorem cut_wanted : Blocks.cut isHeader (splitlinesKept (d.wanted changedFiles)) =
    ((entries changedFiles d).filter Blocks.Entry.wanted).map Blocks.Entry.own := by
  rw [entries_wanted, wanted, splitlinesKept_sections, cut_sections]

theorem own_block : ∀ e ∈ entries changedFiles d, Blocks.IsBlock isHeader e.own := by
  intro e he
  rcases List.mem_append.mp he with he | he
  · have hown : e.own ∈ (leading changedFiles d).map Blocks.Entry.own := by
      rw [← Blocks.addToLast_own]
      exact List.mem_map_of_mem he
    rw [leading_blocks] at hown
    exact Blocks.isBlock_of_cut _ _ hown
  · obtain ⟨b, hb, rfl⟩ := List.mem_map.mp he
    exact Blocks.isBlock_of_cut _ b hb

/-- The last block before the text that follows is the last section's. -/
theorem leading_last {P : Prop} : (∀ e ∈ (leading changedFiles d).getLast?, e.wanted = true → P) ↔
    ∀ s, d.sections.getLast? = some s → s.isListed changedFiles = true → P := by
  rcases List.eq_nil_or_concat d.sections with hnil | ⟨ss, s, hlast⟩
  · rw [leading, hnil]
    simp
  · obtain ⟨line, rest, hlines, hhead⟩ := s.first_line
    have hcut : Blocks.cut isHeader (splitlinesKept s.text) = (line :: Blocks.front isHeader rest) :: Blocks.cut isHeader rest := by
      rw [hlines, Blocks.cut, if_pos hhead]
    obtain ⟨e, he, hwanted⟩ : ∃ e, (leading changedFiles d).getLast? = some e ∧ e.wanted = s.isListed changedFiles := by
      rw [leading, hlast, List.concat_eq_append, List.flatMap_append, List.flatMap_singleton, hcut, ← List.append_assoc,
        List.getLast?_append_of_ne_nil _ (by simp)]
      refine ⟨_, List.getLast?_eq_some_getLast (by simp), ?_⟩
      obtain ⟨b, -, hb⟩ := List.mem_map.mp (List.getLast_mem (l := List.map (fun b => (⟨s.isListed changedFiles, b, []⟩ : Blocks.Entry _))
        ((line :: Blocks.front isHeader rest) :: Blocks.cut isHeader rest)) (by simp))
      rw [← hb]
    rw [hlast, List.concat_eq_append, List.getLast?_concat, he]
    simp [hwanted]

theorem filter_text : filterDiffTextToFiles d.text changedFiles =
    (((entries changedFiles d).map fun e => e.own ++ e.added).filter fun b =>
      b.head?.any fun line => decide (headerPath line ∈ allowedFiles changedFiles)).flatten.flatten := by
  rw [filter_eq_select, Blocks.select_eq, entries_blocks]
  rfl

/-- What is returned is what is wanted if it is so block by block. -/
theorem filter_eq_wanted_iff : filterDiffTextToFiles d.text changedFiles = d.wanted changedFiles ↔
    ∀ e ∈ entries changedFiles d, (e.own.head?.any fun line => decide (headerPath line ∈ allowedFiles changedFiles)) = e.wanted ∧
      (e.wanted = true → e.added = []) := by
  have hkeeps : ∀ e ∈ entries changedFiles d,
      ((e.own ++ e.added).head?.any fun line => decide (headerPath line ∈ allowedFiles changedFiles)) =
        e.own.head?.any fun line => decide (headerPath line ∈ allowedFiles changedFiles) := by
    intro e he
    obtain ⟨line, rest, hown, -⟩ := own_block e he
    rw [hown]
    rfl
  apply Iff.trans _ (@Blocks.kept_eq_wanted_iff _
    (fun b => b.head?.any fun line => decide (headerPath line ∈ allowedFiles changedFiles)) _ hkeeps)
  constructor
  · intro h
    have hcut := congrArg (fun t => Blocks.cut isHeader (splitlinesKept t)) h
    simp only [splitlinesKept_filter, cut_wanted, Blocks.select_eq] at hcut
    rw [if_neg Bool.false_ne_true, List.nil_append, ← entries_blocks, Blocks.cut_flatten] at hcut
    · exact hcut
    · intro b hb
      have hmem := List.mem_of_mem_filter hb
      rw [entries_blocks] at hmem
      exact Blocks.isBlock_of_cut _ b hmem
  · intro h
    rw [filter_text, h, wanted_eq]

theorem entries_iff : (∀ e ∈ entries changedFiles d,
    (e.own.head?.any fun line => decide (headerPath line ∈ allowedFiles changedFiles)) = e.wanted ∧
      (e.wanted = true → e.added = [])) ↔ ReadAsNamed changedFiles d := by
  have hsplit : ∀ {P Q : Blocks.Entry (List Char) → Prop} {es : List (Blocks.Entry (List Char))},
      (∀ e ∈ es, P e ∧ Q e) ↔ (∀ e ∈ es, P e) ∧ ∀ e ∈ es, Q e := by
    intro P Q es
    exact ⟨fun h => ⟨fun e he => (h e he).1, fun e he => (h e he).2⟩, fun h e he => ⟨h.1 e he, h.2 e he⟩⟩
  have hafter : (∀ e ∈ (Blocks.cut isHeader (splitlinesKept d.after)).map fun b => (⟨false, b, []⟩ : Blocks.Entry (List Char)),
      (e.own.head?.any fun line => decide (headerPath line ∈ allowedFiles changedFiles)) = e.wanted ∧
        (e.wanted = true → e.added = [])) ↔
      ∀ line ∈ splitlinesKept d.after, isHeader line = true → headerPath line ∉ allowedFiles changedFiles := by
    rw [List.forall_mem_map]
    simp only [Bool.false_eq_true, false_imp_iff, and_true]
    rw [Blocks.forall_cut]
    simp only [decide_eq_false_iff_not]
  have hleading : (∀ e ∈ leading changedFiles d,
      (e.own.head?.any fun line => decide (headerPath line ∈ allowedFiles changedFiles)) = e.wanted) ↔
      (∀ line ∈ splitlinesKept d.before, isHeader line = true → headerPath line ∉ allowedFiles changedFiles) ∧
        ∀ s ∈ d.sections, ∀ line ∈ splitlinesKept s.text, isHeader line = true →
          (headerPath line ∈ allowedFiles changedFiles ↔ s.isListed changedFiles = true) := by
    rw [leading, List.forall_mem_append, List.forall_mem_map, List.forall_mem_flatMap]
    simp only [List.forall_mem_map, Blocks.forall_cut, decide_eq_false_iff_not]
    apply and_congr_right
    intro _
    apply forall₂_congr
    intro s _
    apply forall₃_congr
    intro line _ _
    rw [Bool.eq_iff_iff, decide_eq_true_iff]
  rw [entries, List.forall_mem_append, hafter, hsplit, Blocks.forall_addToLast fun _ _ => Iff.rfl, hleading,
    Blocks.addToLast_added leading_added, leading_last, front_eq_nil_iff]
  constructor
  · rintro ⟨⟨⟨hbefore, hinside⟩, hending⟩, hbehind⟩
    exact ⟨hinside, List.forall_mem_append.mpr ⟨hbefore, hbehind⟩, hending⟩
  · intro h
    obtain ⟨hbefore, hbehind⟩ := List.forall_mem_append.mp h.around
    exact ⟨⟨⟨hbefore, h.inside⟩, h.ending⟩, hbehind⟩

/-- The filter keeps the sections of the listed files and nothing else, now and when it is asked again,
exactly if the headers are read as what they stand for. -/
theorem filter_exact_iff (changedFiles : List String) (d : DiffText) :
    (filterDiffTextToFiles d.text changedFiles = d.wanted changedFiles ∧
      filterDiffTextToFiles (filterDiffTextToFiles d.text changedFiles) changedFiles =
        filterDiffTextToFiles d.text changedFiles) ↔ ReadAsNamed changedFiles d := by
  rw [← entries_iff, ← filter_eq_wanted_iff]
  exact and_iff_left (filter_filter d.text changedFiles)

/-- A file whose name has a blank, and one whose name has none. -/
def notes : FileSection where
  oldPath := "my notes.md"
  newPath := "my notes.md"
  body := "--- a/my notes.md\n+++ b/my notes.md\n@@ -1 +1 @@\n-old\n+new\n".toList
  ended := .of_last (by decide +kernel)
  body_lines := by decide +kernel

def readme : FileSection where
  oldPath := "README.md"
  newPath := "README.md"
  body := "@@ -1 +1 @@\n-old\n+new\n".toList
  ended := .of_last (by decide +kernel)
  body_lines := by decide +kernel

def bothFiles : DiffText := ⟨[], [notes, readme], [], fun _ => nofun⟩

/-- An artifact of the program: a diff and an empty line behind it. -/
def artifact : DiffText := ⟨"## git diff --binary\n\n".toList, [notes, readme], ['\n'], .of_last (by decide +kernel)⟩

/-- The file with the blank is lost although it is listed, and with the last section of an artifact comes
what stands behind it. -/
theorem listed_lost :
    (filterDiffTextToFiles bothFiles.text ["my notes.md"] = [] ∧ bothFiles.wanted ["my notes.md"] = notes.text ∧ notes.text ≠ []) ∧
    filterDiffTextToFiles artifact.text ["README.md"] = readme.text ++ ['\n'] ∧ artifact.wanted ["README.md"] = readme.text := by
  decide +kernel

example : filterDiffTextToFiles bothFiles.text ["README.md"] = bothFiles.wanted ["README.md"] := by decide +kernel

end DiffText

end DiffSections
