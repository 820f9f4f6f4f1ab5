import TandemAgents.AutoMerge
import TandemAgents.EventLog
import TandemAgents.Fences
import TandemAgents.KeyedTable
import TandemAgents.PlanScope

/-!
# Sections of an issue body

`_split_sections` looks for headings in every line; `_section_items` then reads the lines of a
section and knows about fences. Fenced text stays in its section as long as none of its lines
looks like a heading.
-/
namespace ContractSections

open JsonData PythonText KeyedTable Fences

set_option maxRecDepth 20000

/-! ## Headings -/

/-- `_HEADING_RE`, matched on one line: the text of the heading. -/
def headingText (line : List Char) : Option String :=
  let unindented := line.dropWhile isSpace
  let marks := unindented.takeWhile (· = '#')
  let rest := unindented.dropWhile (· = '#')
  let blank := rest.head?.any isSpace
  if (line.takeWhile isSpace).length ≤ 3 ∧ 2 ≤ marks.length ∧ marks.length ≤ 6 ∧ blank = true then
    some (strip (String.ofList rest))
  else none

def isHeading (line : List Char) : Bool := (headingText line).isSome

/-- `_SECTION_ALIASES`. -/
def sectionAliases : List (String × String) :=
  [("program_context", "program_goal"), ("local_goal", "local_goal"), ("scope", "in_scope"),
    ("out_of_scope", "out_of_scope"), ("dependencies", "dependencies"), ("deliverables", "deliverables"),
    ("target_files", "target_files"), ("files_likely_involved", "target_files"), ("files_likely_touched", "target_files"),
    ("likely_files", "target_files"), ("likely_files_to_edit", "target_files"), ("verification", "verification_commands"),
    ("verification_steps", "verification_commands"), ("acceptance", "acceptance_criteria"),
    ("acceptance_criterion", "acceptance_criteria"), ("acceptance_criteria", "acceptance_criteria"),
    ("notes_for_agent", "notes_for_agent"), ("recommended_fix", "notes_for_agent"),
    ("suspected_root_cause", "notes_for_agent"), ("subtasks", "subtasks")]

section
variable (py : PullRequests.Runtime)

/-- `_normalize_heading`. -/
def normalizeHeading (text : String) : String := PullRequests.normalizeStatusKey py text

/-- The section that a heading starts. -/
def sectionOf (heading : String) : String :=
  (sectionAliases.lookup (normalizeHeading py heading)).getD (normalizeHeading py heading)

end

/-! ## Splitting -/

section
variable {α : Type}

/-- The sections of a body in the order of their first headings. -/
abbrev Sections (α : Type) := Table String (String × List α) Prod.fst

/-- `sections.setdefault(key, [])`. -/
def setdefault (key : String) (sections : Sections α) : Sections α :=
  sections.upsert (key, []) (fun r => (key, r.2)) fun _ => rfl

/-- `sections.setdefault(key, []).append(line)`. -/
def addLine (key : String) (line : α) (sections : Sections α) : Sections α :=
  sections.upsert (key, [line]) (fun r => (key, r.2 ++ [line])) fun _ => rfl

/-- `sections.get(key)`, where there is no difference between no section and an empty one. -/
def linesOf (sections : Sections α) (key : String) : List α := ((sections.find? key).map Prod.snd).getD []

def preamble : String := "__preamble__"

variable (py : PullRequests.Runtime) (text : α → List Char)

/-- The loop of `_split_sections`, over lines with anything beside their text. -/
def splitFrom : String → Sections α → List α → Sections α
  | _, sections, [] => sections
  | current, sections, line :: rest =>
    match headingText (text line) with
    | some heading => splitFrom (sectionOf py heading) (setdefault (sectionOf py heading) sections) rest
    | none => splitFrom current (addLine current line sections) rest

/-- The lines of a body, split. -/
def splitLines (lines : List α) : Sections α := splitFrom py text preamble (setdefault preamble Table.empty) lines

end

/-- `_split_sections`. -/
def splitSections (py : PullRequests.Runtime) (body : List Char) : Sections (List Char) :=
  splitLines py id (EventLog.splitlines body)

/-! ## Items -/

/-- A line that opens or closes a block. -/
def isFence (line : List Char) : Bool := PlanScope.startsWith "```" (strip (String.ofList line))

/-- What follows the marker of a list item: a dash, a star, or digits with a dot or a bracket. -/
def markerRest (isDigit : Char → Bool) (stripped : List Char) : Option (List Char) :=
  match stripped with
  | [] => none
  | c :: rest =>
    if c = '-' ∨ c = '*' then some rest
    else
      match stripped.takeWhile isDigit, stripped.dropWhile isDigit with
      | _ :: _, d :: rest => if d = '.' ∨ d = ')' then some rest else none
      | _, _ => none

/-- `\s+(.*\S)\s*$`: the text behind a blank, which is not empty. -/
def spacedText (rest : List Char) : Option String :=
  if rest.head?.any isSpace = true ∧ strip (String.ofList rest) ≠ "" then some (strip (String.ofList rest)) else none

/-- `_LIST_RE`. -/
def listText (isDigit : Char → Bool) (stripped : List Char) : Option String :=
  (markerRest isDigit stripped).bind spacedText

/-- `_CHECKBOX_RE`. -/
def checkboxText (isDigit : Char → Bool) (stripped : List Char) : Option String :=
  (markerRest isDigit stripped).bind fun rest =>
    match rest.dropWhile isSpace with
    | '[' :: c :: ']' :: rest => if c = ' ' ∨ c = 'x' ∨ c = 'X' then spacedText rest else none
    | _ => none

/-- The item of a line outside the blocks. -/
def proseItem (isDigit : Char → Bool) (stripped : String) : String :=
  ((checkboxText isDigit stripped.toList).or (listText isDigit stripped.toList)).getD stripped

section
variable {α : Type} (isDigit : Char → Bool) (text : α → List Char)

/-- The loop of `_section_items`: the items with the lines they come from. -/
def itemsFrom : Bool → List α → List (α × String)
  | _, [] => []
  | inFence, line :: rest =>
    let stripped := strip (String.ofList (text line))
    if stripped = "" then itemsFrom inFence rest
    else if isFence (text line) then itemsFrom (!inFence) rest
    else if inFence then (line, stripped) :: itemsFrom inFence rest
    else (line, proseItem isDigit stripped) :: itemsFrom inFence rest

/-- The items of a section with the lines they come from; an item that is blank is none. -/
def itemsOf (lines : List α) : List (α × String) :=
  (itemsFrom isDigit text false lines).filter fun item => decide (strip item.2 ≠ "")

end

/-- `_section_items`. -/
def sectionItems (isDigit : Char → Bool) (lines : List (List Char)) : List String :=
  (itemsOf isDigit id lines).map fun item => strip item.2

/-- The sections that `parse_task_contract` reads as items. -/
def itemSections : List String :=
  ["in_scope", "out_of_scope", "dependencies", "deliverables", "target_files", "verification_commands",
    "acceptance_criteria", "subtasks"]

/-! ## The lines of a body and their homes -/

/-- A line with its place, and the section under whose heading it stands when the headings
are looked for outside the blocks only. -/
structure Placed (α : Type) where
  line : α
  place : Place α
  home : String

section
variable {α : Type} (py : PullRequests.Runtime) (text : α → List Char)

/-- The section of a line that comes in a section. -/
def homeAt (current : String) (line : α) (place : Place α) : String :=
  match place, headingText (text line) with
  | .outside, some heading => sectionOf py heading
  | _, _ => current

def homes : String → List (α × Place α) → List (Placed α)
  | _, [] => []
  | current, (line, place) :: rest =>
    ⟨line, place, homeAt py text current line place⟩ :: homes (homeAt py text current line place) rest

/-- The lines from some point on, in a section and with a block open or not. -/
def placedFrom (current : String) (opened : Option α) (lines : List α) : List (Placed α) :=
  homes py text current (places (fun line => isFence (text line)) opened lines)

end

/-- The lines of a body with their numbers. -/
def numbered (body : List Char) : List (List Char × Nat) := (EventLog.splitlines body).zipIdx

section
variable (py : PullRequests.Runtime) (body : List Char)

def placed : List (Placed (List Char × Nat)) := placedFrom py Prod.fst preamble none (numbered body)

/-- The sections that the code makes of the numbered lines. -/
def split : Sections (List Char × Nat) := splitLines py Prod.fst (numbered body)

/-- A fenced line stands in the section in which its block was opened and in no other, as a
line and as an item, and no section comes from it. -/
structure FencedContent : Prop where
  lines : ∀ p ∈ placed py body, ∀ opening, p.place = .inside opening →
    ∀ key, p.line ∈ linesOf (split py body) key ↔ key = p.home
  items : ∀ p ∈ placed py body, ∀ opening, p.place = .inside opening → strip (String.ofList p.line.1) ≠ "" →
    ∀ key ∈ itemSections, ∀ item, (p.line, item) ∈ itemsOf py.isDigit Prod.fst (linesOf (split py body) key) ↔
      key = p.home ∧ item = strip (String.ofList p.line.1)
  sections : ∀ key, ((split py body).find? key).isSome = true ↔ key = preamble ∨
    ∃ p ∈ placed py body, p.place = .outside ∧ isHeading p.line.1 = true ∧ p.home = key

end

/-! ## Lines that stay with their text -/

section
variable {α β : Type} (py : PullRequests.Runtime) (text : α → List Char)

@[simp] theorem linesOf_setdefault (key key' : String) (sections : Sections α) :
    linesOf (setdefault key sections) key' = linesOf sections key' := by
  by_cases h : key' = key
  · subst h
    cases hf : sections.find? key' with
    | none => simp [linesOf, setdefault, hf]
    | some r => simp [linesOf, setdefault, hf]
  · simp [linesOf, setdefault, h]

@[simp] theorem linesOf_addLine (key key' : String) (line : α) (sections : Sections α) :
    linesOf (addLine key line sections) key' = linesOf sections key' ++ if key = key' then [line] else [] := by
  by_cases h : key' = key
  · subst h
    cases hf : sections.find? key' with
    | none => simp [linesOf, addLine, hf]
    | some r => simp [linesOf, addLine, hf]
  · simp [linesOf, addLine, h, Ne.symm h]

/-- The lines that are no headings, with the sections they are put into. -/
def assigned : String → List α → List (String × α)
  | _, [] => []
  | current, line :: rest =>
    match headingText (text line) with
    | some heading => assigned (sectionOf py heading) rest
    | none => (current, line) :: assigned current rest

/-- The lines assigned to a section. -/
def share (key : String) (lines : List (String × α)) : List α :=
  (lines.filter fun entry => decide (entry.1 = key)).map Prod.snd

@[simp] theorem share_nil (key : String) : share key ([] : List (String × α)) = [] := rfl

@[simp] theorem share_cons (key current : String) (line : α) (lines : List (String × α)) :
    share key ((current, line) :: lines) = (if current = key then [line] else []) ++ share key lines := by
  by_cases h : current = key
  · simp [share, h]
  · simp [share, h]

/-- A section holds what it held and the lines assigned to it. -/
theorem linesOf_splitFrom (current key : String) (sections : Sections α) (lines : List α) :
    linesOf (splitFrom py text current sections lines) key =
      linesOf sections key ++ share key (assigned py text current lines) := by
  induction lines generalizing current sections with
  | nil => simp [splitFrom, assigned]
  | cons line rest ih =>
    rw [splitFrom, assigned]
    cases headingText (text line) with
    | some heading => simp [ih]
    | none => simp [ih]

theorem linesOf_splitLines (key : String) (lines : List α) :
    linesOf (splitLines py text lines) key = share key (assigned py text preamble lines) := by
  rw [splitLines, linesOf_splitFrom, linesOf_setdefault]
  rfl

theorem assigned_map (f : β → α) (current : String) (lines : List β) :
    assigned py text current (lines.map f) = (assigned py (text ∘ f) current lines).map fun e => (e.1, f e.2) := by
  induction lines generalizing current with
  | nil => rfl
  | cons line rest ih =>
    rw [List.map_cons, assigned, assigned, Function.comp]
    cases headingText (text (f line)) with
    | some heading => exact ih _
    | none => simp only [ih, List.map_cons, Function.comp_def]

theorem itemsFrom_map (isDigit : Char → Bool) (f : β → α) (inFence : Bool) (lines : List β) :
    itemsFrom isDigit text inFence (lines.map f) =
      (itemsFrom isDigit (text ∘ f) inFence lines).map fun item => (f item.1, item.2) := by
  induction lines generalizing inFence with
  | nil => rfl
  | cons line rest ih =>
    rw [List.map_cons, itemsFrom, itemsFrom]
    simp only [Function.comp_def, apply_ite (List.map _), List.map_cons, ih]

end

/-- The items of a section are those that its numbered lines give. -/
theorem sectionItems_split (py : PullRequests.Runtime) (body : List Char) (key : String) :
    sectionItems py.isDigit (linesOf (splitSections py body) key) =
      (itemsOf py.isDigit Prod.fst (linesOf (split py body) key)).map fun item => strip item.2 := by
  have hlines : linesOf (splitSections py body) key = (linesOf (split py body) key).map Prod.fst := by
    have hnumbers : EventLog.splitlines body = (numbered body).map Prod.fst := (List.zipIdx_map_fst _ _).symm
    rw [splitSections, split, linesOf_splitLines, linesOf_splitLines, hnumbers, assigned_map, share, share,
      List.filter_map, List.map_map, List.map_map]
    rfl
  rw [hlines, sectionItems, itemsOf, itemsOf, itemsFrom_map, List.filter_map, List.map_map]
  rfl

/-! ## Fences and headings -/

/-- What is stripped begins with a text that has no blanks only if the unindented line does. -/
theorem startsWith_strip {start : Char} {line : List Char} (h : (strip (String.ofList line)).toList.head? = some start) :
    (line.dropWhile isSpace).head? = some start := by
  rw [strip, stripBy, String.toList_ofList, String.toList_ofList] at h
  obtain ⟨ending, hending⟩ := List.dropWhile_suffix isSpace (l := (line.dropWhile isSpace).reverse)
  have hsplit := congrArg List.reverse hending
  rw [List.reverse_append, List.reverse_reverse] at hsplit
  rw [← hsplit, List.head?_append, h, Option.some_or]

theorem isFence_head {line : List Char} (h : isFence line = true) : (line.dropWhile isSpace).head? = some '`' := by
  apply startsWith_strip
  obtain ⟨rest, hrest⟩ := List.isPrefixOf_iff_prefix.mp h
  rw [← hrest]
  rfl

theorem headingText_fence {line : List Char} (h : isFence line = true) : headingText line = none := by
  have hhead := isFence_head h
  cases hline : line.dropWhile isSpace with
  | nil => rw [hline] at hhead; cases hhead
  | cons c rest =>
    rw [hline] at hhead
    obtain rfl : c = '`' := Option.some.inj hhead
    simp [headingText, hline]

theorem not_blank_of_isFence {line : List Char} (h : isFence line = true) : strip (String.ofList line) ≠ "" := by
  intro hblank
  rw [isFence, hblank] at h
  exact Bool.false_ne_true h

section
variable {α : Type} (py : PullRequests.Runtime) (text : α → List Char)

/-- No line inside a block looks like a heading. -/
def Quiet (lines : List (Placed α)) : Prop :=
  ∀ p ∈ lines, ∀ opening, p.place = .inside opening → isHeading (text p.line) = false

/-- The item that a line gives where it stands. -/
def itemAt (p : Placed α) : Option (α × String) :=
  let stripped := strip (String.ofList (text p.line))
  match p.place with
  | .fence => none
  | .inside _ => if stripped = "" then none else some (p.line, stripped)
  | .outside =>
    if isHeading (text p.line) = true ∨ stripped = "" then none else some (p.line, proseItem py.isDigit stripped)

theorem placedFrom_cons (current : String) (opened : Option α) (line : α) (rest : List α) {at_ : Place α}
    (hplace : place (fun l => isFence (text l)) opened line = at_) :
    placedFrom py text current opened (line :: rest) = ⟨line, at_, homeAt py text current line at_⟩ ::
      placedFrom py text (homeAt py text current line at_) (behind (fun l => isFence (text l)) opened line) rest := by
  subst hplace
  rfl

theorem placedFrom_fence {line : α} (h : isFence (text line) = true) (current : String) (opened : Option α)
    (rest : List α) :
    placedFrom py text current opened (line :: rest) =
      ⟨line, .fence, current⟩ :: placedFrom py text current (if opened.isSome then none else some line) rest := by
  rw [placedFrom_cons py text current opened line rest (@place_fence α (fun l => isFence (text l)) line h opened),
    @behind_fence α (fun l => isFence (text l)) line h opened]
  rfl

theorem placedFrom_inside {line : α} (h : isFence (text line) = false) (current : String) (opening : α) (rest : List α) :
    placedFrom py text current (some opening) (line :: rest) =
      ⟨line, .inside opening, current⟩ :: placedFrom py text current (some opening) rest := by
  rw [placedFrom_cons py text current _ line rest (@place_inside α (fun l => isFence (text l)) line h opening),
    @behind_other α (fun l => isFence (text l)) line h]
  rfl

theorem placedFrom_heading {line : α} (h : isFence (text line) = false) {heading : String}
    (hheading : headingText (text line) = some heading) (current : String) (rest : List α) :
    placedFrom py text current none (line :: rest) =
      ⟨line, .outside, sectionOf py heading⟩ :: placedFrom py text (sectionOf py heading) none rest := by
  rw [placedFrom_cons py text current _ line rest (@place_outside α (fun l => isFence (text l)) line h),
    @behind_other α (fun l => isFence (text l)) line h]
  simp only [homeAt, hheading]

theorem placedFrom_prose {line : α} (h : isFence (text line) = false) (hnone : headingText (text line) = none)
    (current : String) (rest : List α) :
    placedFrom py text current none (line :: rest) =
      ⟨line, .outside, current⟩ :: placedFrom py text current none rest := by
  rw [placedFrom_cons py text current _ line rest (@place_outside α (fun l => isFence (text l)) line h),
    @behind_other α (fun l => isFence (text l)) line h]
  simp only [homeAt, hnone]

theorem Quiet.rest {p : Placed α} {lines : List (Placed α)} (h : Quiet text (p :: lines)) : Quiet text lines :=
  fun q hq => h q (List.mem_cons_of_mem _ hq)

theorem Quiet.head {line opening : α} {home : String} {lines : List (Placed α)}
    (h : Quiet text (⟨line, .inside opening, home⟩ :: lines)) : headingText (text line) = none := by
  simpa [isHeading] using h _ List.mem_cons_self opening rfl

/-- Where no line inside a block looks like a heading, a line is assigned to its home. -/
theorem assigned_eq (current : String) (opened : Option α) (lines : List α)
    (h : Quiet text (placedFrom py text current opened lines)) :
    assigned py text current lines = ((placedFrom py text current opened lines).filter
      (fun p => !isHeading (text p.line))).map fun p => (p.home, p.line) := by
  induction lines generalizing current opened with
  | nil => rfl
  | cons line rest ih =>
    by_cases hfence : isFence (text line) = true
    · have hnone := headingText_fence hfence
      rw [placedFrom_fence py text hfence] at h ⊢
      have hrest := ih _ _ h.rest
      simp [assigned, hnone, isHeading, hrest]
    · have hother : isFence (text line) = false := Bool.not_eq_true _ ▸ hfence
      cases opened with
      | some opening =>
        rw [placedFrom_inside py text hother] at h ⊢
        have hrest := ih _ _ h.rest
        have hnone := h.head
        simp [assigned, hnone, isHeading, hrest]
      | none =>
        cases hheading : headingText (text line) with
        | none =>
          rw [placedFrom_prose py text hother hheading] at h ⊢
          have hrest := ih _ _ h.rest
          simp [assigned, hheading, isHeading, hrest]
        | some heading =>
          rw [placedFrom_heading py text hother hheading] at h ⊢
          have hrest := ih _ _ h.rest
          simp [assigned, hheading, isHeading, hrest]

/-- The items that the lines of a section give where they stand. -/
def itemsAt (key : String) (lines : List (Placed α)) : List (α × String) :=
  (lines.filter fun p => decide (p.home = key)).filterMap (itemAt py text)

theorem itemsAt_cons (key : String) (p : Placed α) (lines : List (Placed α)) :
    itemsAt py text key (p :: lines) =
      (if p.home = key then (itemAt py text p).toList else []) ++ itemsAt py text key lines := by
  by_cases hkey : p.home = key
  · cases hitem : itemAt py text p <;> simp [itemsAt, hkey, hitem]
  · simp [itemsAt, hkey]

/-- Where no line inside a block looks like a heading, the fences of a section pair as they do
in the document: every block is closed in front of a heading. -/
theorem itemsFrom_share (key current : String) (opened : Option α) (lines : List α)
    (h : Quiet text (placedFrom py text current opened lines)) :
    itemsFrom py.isDigit text (opened.isSome && decide (current = key)) (share key (assigned py text current lines)) =
      itemsAt py text key (placedFrom py text current opened lines) := by
  induction lines generalizing current opened with
  | nil => rfl
  | cons line rest ih =>
    by_cases hfence : isFence (text line) = true
    · have hnone := headingText_fence hfence
      have hblank := not_blank_of_isFence hfence
      rw [placedFrom_fence py text hfence] at h ⊢
      rw [itemsAt_cons, ← ih _ _ h.rest]
      by_cases hkey : current = key
      · cases opened <;> simp [assigned, hnone, hkey, itemsFrom, hfence, hblank, itemAt]
      · simp [assigned, hnone, hkey]
    · have hother : isFence (text line) = false := Bool.not_eq_true _ ▸ hfence
      cases opened with
      | some opening =>
        rw [placedFrom_inside py text hother] at h ⊢
        rw [itemsAt_cons, ← ih _ _ h.rest]
        have hnone := h.head
        by_cases hkey : current = key
        · by_cases hblank : strip (String.ofList (text line)) = ""
          · simp [assigned, hnone, hkey, itemsFrom, hblank, itemAt]
          · simp [assigned, hnone, hkey, itemsFrom, hother, hblank, itemAt]
        · simp [assigned, hnone, hkey]
      | none =>
        cases hheading : headingText (text line) with
        | some heading =>
          rw [placedFrom_heading py text hother hheading] at h ⊢
          rw [itemsAt_cons, ← ih _ _ h.rest]
          simp [assigned, hheading, itemAt, isHeading]
        | none =>
          rw [placedFrom_prose py text hother hheading] at h ⊢
          rw [itemsAt_cons, ← ih _ _ h.rest]
          by_cases hkey : current = key
          · by_cases hblank : strip (String.ofList (text line)) = ""
            · simp [assigned, hheading, hkey, itemsFrom, hblank, itemAt]
            · simp [assigned, hheading, hkey, itemsFrom, hother, hblank, itemAt, isHeading]
          · simp [assigned, hheading, hkey]

theorem placedFrom_line (current : String) (opened : Option α) (lines : List α) :
    (placedFrom py text current opened lines).map Placed.line = lines := by
  induction lines generalizing current opened with
  | nil => rfl
  | cons line rest ih =>
    rw [placedFrom_cons py text current opened line rest rfl, List.map_cons, ih]

theorem heading_of_assigned {current : String} {lines : List α} {entry : String × α}
    (h : entry ∈ assigned py text current lines) : isHeading (text entry.2) = false := by
  induction lines generalizing current with
  | nil => cases h
  | cons line rest ih =>
    rw [assigned] at h
    cases hheading : headingText (text line) with
    | some heading => rw [hheading] at h; exact ih h
    | none =>
      rw [hheading] at h
      rcases List.mem_cons.mp h with rfl | h
      · simp [isHeading, hheading]
      · exact ih h

theorem mem_share {key : String} {line : α} {entries : List (String × α)} :
    line ∈ share key entries ↔ (key, line) ∈ entries := by
  simp [share]

/-- The sections are those that were there, and those of the headings and the lines met. -/
theorem isSome_splitFrom (current key : String) (sections : Sections α) (lines : List α)
    (h : (sections.find? current).isSome = true) :
    ((splitFrom py text current sections lines).find? key).isSome = true ↔
      (sections.find? key).isSome = true ∨ ∃ line ∈ lines, ∃ heading, headingText (text line) = some heading ∧
        sectionOf py heading = key := by
  induction lines generalizing current sections with
  | nil => simp [splitFrom]
  | cons line rest ih =>
    rw [splitFrom]
    cases hheading : headingText (text line) with
    | some heading =>
      have hset : ∀ k, ((setdefault (sectionOf py heading) sections).find? k).isSome = true ↔
          k = sectionOf py heading ∨ (sections.find? k).isSome = true := by
        intro k
        by_cases hk : k = sectionOf py heading <;> simp [setdefault, hk]
      simp only [ih _ _ ((hset _).mpr (.inl rfl)), hset, List.mem_cons, or_and_right, exists_or, exists_eq_left, hheading,
        Option.some.injEq, exists_eq_left']
      rw [or_assoc, @eq_comm _ key]
      exact or_left_comm
    | none =>
      have hadd : ∀ k, ((addLine current line sections).find? k).isSome = (sections.find? k).isSome := by
        intro k
        by_cases hk : k = current
        · subst hk; simp [addLine, h]
        · simp [addLine, hk]
      rw [ih _ _ ((hadd _).trans h), hadd]
      simp [hheading]

/-- Outside the blocks a heading stands in the section it starts. -/
theorem home_of_heading {current : String} {opened : Option α} {lines : List α} {p : Placed α}
    (h : p ∈ placedFrom py text current opened lines) (hout : p.place = .outside) {heading : String}
    (hheading : headingText (text p.line) = some heading) : p.home = sectionOf py heading := by
  induction lines generalizing current opened with
  | nil => cases h
  | cons line rest ih =>
    rw [placedFrom_cons py text current opened line rest rfl] at h
    rcases List.mem_cons.mp h with rfl | h
    · simp only at hout hheading ⊢
      simp only [hout, homeAt, hheading]
    · exact ih h

/-- A fence is no heading, and a quiet text has its headings outside the blocks. -/
theorem outside_of_heading {current : String} {opened : Option α} {lines : List α} {p : Placed α}
    (h : p ∈ placedFrom py text current opened lines) (hquiet : Quiet text (placedFrom py text current opened lines))
    (hheading : isHeading (text p.line) = true) : p.place = .outside := by
  cases hplace : p.place with
  | outside => rfl
  | inside opening => rw [hquiet p h opening hplace] at hheading; cases hheading
  | fence =>
    exfalso
    clear hquiet
    induction lines generalizing current opened with
    | nil => cases h
    | cons line rest ih =>
      rw [placedFrom_cons py text current opened line rest rfl] at h
      rcases List.mem_cons.mp h with rfl | h
      · by_cases hfence : isFence (text line) = true
        · simp [isHeading, headingText_fence hfence] at hheading
        · cases opened <;> simp [place, hfence] at hplace
      · exact ih h

end

/-! ## The condition -/

section
variable (py : PullRequests.Runtime) (body : List Char)

theorem placed_line : (placed py body).map Placed.line = numbered body := placedFrom_line py Prod.fst preamble none _

/-- A numbered line is placed once. -/
theorem placed_unique {p q : Placed (List Char × Nat)} (hp : p ∈ placed py body) (hq : q ∈ placed py body)
    (h : p.line = q.line) : p = q := by
  have hnodup : ((placed py body).map Placed.line).Nodup := by
    rw [placed_line, numbered]
    apply List.Nodup.of_map Prod.snd
    rw [List.zipIdx_map_snd]
    exact List.nodup_range'
  exact List.inj_on_of_nodup_map hnodup hp hq h

theorem mem_lines_iff (hquiet : Quiet Prod.fst (placed py body)) {p : Placed (List Char × Nat)} (hp : p ∈ placed py body)
    (key : String) : p.line ∈ linesOf (split py body) key ↔ isHeading p.line.1 = false ∧ key = p.home := by
  rw [split, linesOf_splitLines, mem_share, assigned_eq py Prod.fst preamble none _ hquiet]
  simp only [List.mem_map, List.mem_filter]
  constructor
  · rintro ⟨q, ⟨hq, hheading⟩, hpair⟩
    obtain ⟨rfl, hline⟩ := Prod.mk.inj hpair
    obtain rfl := placed_unique py body hq hp hline
    exact ⟨by simpa using hheading, rfl⟩
  · rintro ⟨hheading, rfl⟩
    exact ⟨p, ⟨hp, by simp [hheading]⟩, rfl⟩

theorem mem_items_iff (hquiet : Quiet Prod.fst (placed py body)) {p : Placed (List Char × Nat)} (hp : p ∈ placed py body)
    (key item : String) : (p.line, item) ∈ itemsOf py.isDigit Prod.fst (linesOf (split py body) key) ↔
      (key = p.home ∧ itemAt py Prod.fst p = some (p.line, item)) ∧ strip item ≠ "" := by
  have hfrom := itemsFrom_share py Prod.fst key preamble none (numbered body) hquiet
  rw [Option.isSome_none, Bool.false_and] at hfrom
  rw [split, linesOf_splitLines, itemsOf, hfrom, List.mem_filter, decide_eq_true_iff]
  apply and_congr_left'
  simp only [itemsAt, List.mem_filterMap, List.mem_filter, decide_eq_true_iff]
  constructor
  · rintro ⟨q, ⟨hq, rfl⟩, hitem⟩
    have hline : q.line = p.line := by
      unfold itemAt at hitem
      grind
    obtain rfl := placed_unique py body hq hp hline
    exact ⟨rfl, hitem⟩
  · rintro ⟨rfl, hitem⟩
    exact ⟨p, ⟨hp, rfl⟩, hitem⟩

/-- A fenced line that is a heading to the code stands in no section. -/
theorem FencedContent.quiet {py : PullRequests.Runtime} {body : List Char} (h : FencedContent py body) :
    Quiet Prod.fst (placed py body) := by
  intro p hp opening hplace
  have hmem := (h.lines p hp opening hplace p.home).mpr rfl
  rw [split, linesOf_splitLines, mem_share] at hmem
  exact heading_of_assigned py Prod.fst hmem

/-- Fenced text is content of its section exactly when none of its lines looks like a heading. -/
theorem fencedContent_iff : FencedContent py body ↔
    ∀ p ∈ placed py body, ∀ opening, p.place = .inside opening → isHeading p.line.1 = false := by
  constructor
  · exact FencedContent.quiet
  · intro hquiet
    constructor
    · intro p hp opening hplace key
      rw [mem_lines_iff py body hquiet hp]
      exact and_iff_right (hquiet p hp opening hplace)
    · intro p hp opening hplace hblank key _ item
      rw [mem_items_iff py body hquiet hp]
      simp only [itemAt, hplace, if_neg hblank, Option.some.injEq, Prod.mk.injEq, true_and]
      constructor
      · rintro ⟨⟨hkey, rfl⟩, -⟩
        exact ⟨hkey, rfl⟩
      · rintro ⟨hkey, rfl⟩
        exact ⟨⟨hkey, rfl⟩, by rwa [strip_idem]⟩
    · intro key
      have hpre : ∀ k, ((setdefault preamble (Table.empty : Sections (List Char × Nat))).find? k).isSome = true ↔
          k = preamble := by
        intro k
        by_cases hk : k = preamble <;> simp [setdefault, hk]
      rw [split, splitLines, isSome_splitFrom py Prod.fst preamble key _ _ ((hpre _).mpr rfl), hpre]
      apply or_congr_right
      constructor
      · rintro ⟨line, hline, heading, hheading, rfl⟩
        rw [← placed_line py] at hline
        obtain ⟨p, hp, rfl⟩ := List.mem_map.mp hline
        have his : isHeading p.line.1 = true := by simp [isHeading, hheading]
        have hout := outside_of_heading py Prod.fst hp hquiet his
        exact ⟨p, hp, hout, his, home_of_heading py Prod.fst hp hout hheading⟩
      · rintro ⟨p, hp, hout, his, rfl⟩
        obtain ⟨heading, hheading⟩ := Option.isSome_iff_exists.mp his
        refine ⟨p.line, ?_, heading, hheading, (home_of_heading py Prod.fst hp hout hheading).symm⟩
        rw [← placed_line py]
        exact List.mem_map_of_mem hp

end

/-- A comment with one mark is no heading, wherever it stands. -/
theorem comment_not_heading {line : List Char} {c : Char} {rest : List Char} (h : line.dropWhile isSpace = '#' :: c :: rest)
    (hc : c ≠ '#') : isHeading line = false := by
  simp [isHeading, headingText, h, hc]

/-- A body whose commands stand behind a comment with two marks. -/
def commentedBody : List Char :=
  "## Verification\n```bash\n## unit tests\npytest -q\n```\n## Scope\n- api".toList

/-- The comment starts a section of its own. -/
theorem comment_starts_section : ¬ FencedContent AutoMerge.asciiRuntime commentedBody := by
  intro h
  have hfound : ((placed AutoMerge.asciiRuntime commentedBody).any fun p =>
      decide (p.place ≠ .fence ∧ p.place ≠ .outside) && isHeading p.line.1) = true := by decide +kernel
  obtain ⟨p, hp, hcase⟩ := List.any_eq_true.mp hfound
  rw [Bool.and_eq_true, decide_eq_true_iff] at hcase
  obtain ⟨⟨hfence, hout⟩, his⟩ := hcase
  cases hplace : p.place with
  | fence => exact hfence hplace
  | outside => exact hout hplace
  | inside opening => exact Bool.false_ne_true ((h.quiet p hp opening hplace).symm.trans his)

end ContractSections
