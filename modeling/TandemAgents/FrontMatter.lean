import TandemAgents.KeyedTable
import TandemAgents.PythonText
import TandemAgents.TextLines

/-!
# Front matter of a document

A document is split into its front matter and its body by one expression and put together again
from the two parts. The expression goes by line breaks and dashes: what it takes for front
matter need not be a mapping, and blanks behind the block go with it.
-/
namespace FrontMatter

open PythonText KeyedTable TextLines

set_option maxRecDepth 20000

/-! ## The library -/

/-- A mapping in the order of its keys. -/
abbrev Mapping (κ ν : Type) [DecidableEq κ] := Table κ (κ × ν) Prod.fst

def rule : List Char := ['-', '-', '-']

def lstrip (text : List Char) : List Char := text.dropWhile isSpace

def rstrip (text : List Char) : List Char := (text.reverse.dropWhile isSpace).reverse

def stripped (text : List Char) : List Char := rstrip (lstrip text)

/-- `yaml.safe_load`, where it gives a mapping, and `yaml.safe_dump`. A blank text is no mapping;
what is dumped is read back, and none of its lines begins with a rule, which would end it. -/
structure Yaml (κ ν : Type) [DecidableEq κ] where
  load : List Char → Option (Mapping κ ν)
  dump : Mapping κ ν → List Char
  load_blank : ∀ text, (∀ c ∈ text, isSpace c = true) → load text = none
  load_dump : ∀ m : Mapping κ ν, m.rows ≠ [] → load (stripped (dump m)) = some m
  dump_lines : ∀ m : Mapping κ ν, m.rows ≠ [] → ∀ line ∈ lines (stripped (dump m)), rule.isPrefixOf line = false

/-! ## The expression -/

/-- `\s*\n` at the front of a text: what may follow it, the longest match first. -/
def starts : List Char → List (List Char)
  | [] => []
  | c :: rest => if isSpace c = true then starts rest ++ (if c = '\n' then [rest] else []) else []

/-- `(.*?)\n---`: the text before the first rule that follows a line break, and the text behind. -/
def breakClosing : List Char → Option (List Char × List Char)
  | [] => none
  | c :: rest =>
    if ('\n' :: rule).isPrefixOf (c :: rest) = true then some ([], rest.drop 3)
    else (breakClosing rest).map fun parts => (c :: parts.1, parts.2)

/-- `FRONTMATTER_PATTERN.match`: the metadata and the body. The blanks behind the closing rule are
taken greedily, with all line breaks. -/
def matchFrontmatter (text : List Char) : Option (List Char × List Char) :=
  if rule.isPrefixOf text = true then
    (starts (text.drop 3)).findSome? fun start => (breakClosing start).map fun parts => (parts.1, lstrip parts.2)
  else none

section
variable {κ ν : Type} [DecidableEq κ] (y : Yaml κ ν)

/-- `_parse_frontmatter`. -/
def parseFrontmatter (text : List Char) : Mapping κ ν × List Char :=
  match matchFrontmatter text with
  | none => (Table.empty, text)
  | some (metadataRaw, body) => ((y.load metadataRaw).getD Table.empty, body)

/-- `split_document_frontmatter`. -/
def splitDocument (text : List Char) : Mapping κ ν × List Char :=
  if rule.isPrefixOf (lstrip text) = true then parseFrontmatter y text else (Table.empty, text)

/-- `render_document_frontmatter`. -/
def renderDocument (metadata : Mapping κ ν) (bodyText : List Char) : List Char :=
  let rendered := stripped (y.dump metadata)
  let body := bodyText.dropWhile fun c => decide (c = '\n')
  rule ++ '\n' :: (rendered ++ '\n' :: (rule ++ '\n' :: if body ≠ [] then '\n' :: body else []))

/-! ## Edits -/

/-- A title, tags and further entries to set; an entry without a value is passed over. -/
structure Edits (κ ν : Type) where
  titleKey : κ
  tagsKey : κ
  title : Option ν
  tags : Option ν
  extra : List (κ × Option ν)

/-- The entries an edit sets, in their order. -/
def Edits.entries (e : Edits κ ν) : List (κ × ν) :=
  (e.title.map fun v => (e.titleKey, v)).toList ++ (e.tags.map fun v => (e.tagsKey, v)).toList ++
    e.extra.filterMap fun entry => entry.2.map fun v => (entry.1, v)

/-- `metadata[key] = value`. -/
def setEntry (metadata : Mapping κ ν) (entry : κ × ν) : Mapping κ ν := metadata.upsert entry (fun _ => entry) fun _ => rfl

def Edits.apply (e : Edits κ ν) (metadata : Mapping κ ν) : Mapping κ ν := e.entries.foldl setEntry metadata

def Edits.changed (e : Edits κ ν) : Bool := !e.entries.isEmpty

/-- `merge_document_frontmatter`. Where nothing is set the metadata are the original ones. -/
def mergeDocument (text : List Char) (e : Edits κ ν) : List Char :=
  let (original, body) := splitDocument y text
  let metadata := e.apply original
  if e.changed = false ∧ rule.isPrefixOf (lstrip text) = true then text
  else if metadata.rows = [] then text
  else renderDocument y metadata body

/-- What a write of a document sets: an edit, the source documents, the origin and the time. -/
structure Write (κ ν : Type) extends Edits κ ν where
  sourcesKey : κ
  originKey : κ
  updatedKey : κ
  sources : Option ν
  origin : ν
  now : ν

def Write.edits (w : Write κ ν) : Edits κ ν :=
  { w.toEdits with
    extra := w.extra ++ [(w.sourcesKey, w.sources), (w.originKey, some w.origin), (w.updatedKey, some w.now)] }

/-- The text that `write_document` stores; `update_document_metadata` writes the text of the
document itself. -/
def storedText (text : List Char) (w : Write κ ν) : List Char := mergeDocument y text w.edits

/-- The section of `append_section`. -/
def sectionText (heading content : List Char) : List Char :=
  stripped (['\n', '\n'].intercalate ((if stripped heading ≠ [] then ['#' :: '#' :: ' ' :: stripped heading] else []) ++
    (if stripped content ≠ [] then [stripped content] else [])))

/-- The text that `append_section` writes for a document that exists; nothing where it raises. -/
def appendText (text heading content : List Char) (w : Write κ ν) : Option (List Char) :=
  let added := sectionText heading content
  if added = [] then none
  else
    let (metadata, body) := splitDocument y text
    let newBody := if rstrip body ≠ [] then stripped (rstrip body ++ '\n' :: '\n' :: added) else added
    some (storedText y (if metadata.rows ≠ [] then renderDocument y metadata newBody else newBody) w)

/-! ## Front matter by lines -/

def isBlank (line : List Char) : Bool := line.all isSpace

/-- A rule alone on its line. -/
def isRule (line : List Char) : Bool := rule.isPrefixOf line && isBlank (line.drop 3)

/-- The front matter of a document and the lines behind it: a mapping between two rules, each alone
on its line. The second is the first line behind the beginning of the mapping that begins with
a rule. -/
def frontMatter : List (List Char) → Option (Mapping κ ν × List (List Char))
  | [] => none
  | opening :: rest =>
    match rest.dropWhile isBlank with
    | [] => none
    | first :: more =>
      match more.dropWhile fun line => !rule.isPrefixOf line with
      | [] => none
      | closing :: behind =>
        if isRule opening = true ∧ isRule first = false ∧ isRule closing = true then
          (y.load (joined (first :: more.takeWhile fun line => !rule.isPrefixOf line))).map fun m => (m, behind)
        else none

/-- The lines of a document that are not part of its front matter. -/
def documentLines (text : List Char) : List (List Char) := (frontMatter y (lines text)).elim (lines text) Prod.snd

/-- Lines without the blank ones at the end. -/
def trimmed (texts : List (List Char)) : List (List Char) := (texts.reverse.dropWhile isBlank).reverse

/-- What is not overwritten of the front matter of a text keeps its value. -/
def KeepsEntries (overwritten : List κ) (text new : List Char) : Prop :=
  ∀ m behind, frontMatter y (lines text) = some (m, behind) →
    ∃ m' behind', frontMatter y (lines new) = some (m', behind') ∧
      ∀ key entry, m.find? key = some entry → key ∉ overwritten → m'.find? key = some entry

/-- An edit keeps the lines of a document and the other entries of its front matter. -/
def MergeKeeps (text : List Char) (e : Edits κ ν) : Prop :=
  (documentLines y text).Sublist (documentLines y (mergeDocument y text e)) ∧
    KeepsEntries y (e.entries.map Prod.fst) text (mergeDocument y text e)

/-- Updating the metadata keeps the lines of a document and the other entries of its front matter. -/
def UpdateKeeps (text : List Char) (w : Write κ ν) : Prop :=
  (documentLines y text).Sublist (documentLines y (storedText y text w)) ∧
    KeepsEntries y (w.edits.entries.map Prod.fst) text (storedText y text w)

/-- Whatever section is appended, it stands at the end behind an empty line, and in front of it are
the lines of the document but for blank ones at their end. -/
def AppendKeeps (text : List Char) (w : Write κ ν) : Prop :=
  ∀ heading content new, appendText y text heading content w = some new →
    (trimmed (documentLines y text) ≠ [] → ∃ before, documentLines y new = before ++ [] :: lines (sectionText heading content) ∧
      (trimmed (documentLines y text)).Sublist before) ∧
    KeepsEntries y (w.edits.entries.map Prod.fst) text new

/-! ## Conditions -/

/-- Nothing is left out at the front of a text but one line break. -/
def CleanFront (drop : Char → Bool) (text : List Char) : Prop :=
  text = text.dropWhile drop ∨ text.dropWhile drop ≠ [] ∧ text = '\n' :: text.dropWhile drop

/-- Blanks at the front of the body are a line break at most; and the text is not taken for front
matter where it is none. -/
def MergeSafe (text : List Char) : Prop :=
  match frontMatter y (lines text) with
  | some (_, behind) => CleanFront isSpace (joined behind)
  | none => matchFrontmatter text = none ∧ CleanFront (fun c => decide (c = '\n')) text

/-- But for blank lines at the end and one line break at the front, a text is stripped. -/
def CleanEnds (text : List Char) : Prop :=
  trimmed (lines text) = lines (stripped text) ∨ trimmed (lines text) = [] :: lines (stripped text)

/-- A body is blank or stripped, and a body without entries in front of it does not begin with a rule. -/
def AppendSafe (text : List Char) : Prop :=
  match frontMatter y (lines text) with
  | some (m, behind) => stripped (joined behind) = [] ∨ CleanEnds (joined behind) ∧
      (m.rows = [] → ∀ line ∈ (lines (stripped (joined behind))).head?, isRule line = false)
  | none => stripped text = [] ∨ matchFrontmatter text = none ∧ CleanEnds text ∧
      ∀ line ∈ (lines (stripped text)).head?, isRule line = false

end

/-! ## Text that is dropped at the front -/

/-- Lines that may stand behind one more empty line stand there only as they are. -/
theorem sublist_emptyLine {L B : List (List Char)} (hle : B.length ≤ L.length)
    (hhead : L.length = B.length → L.head? ≠ some []) : L.Sublist ([] :: B) ↔ L = B ∨ L = [] :: B := by
  constructor
  · intro h
    have hlen := h.length_le
    rw [List.length_cons] at hlen
    by_cases heq : L.length = B.length
    · left
      cases h with
      | cons _ h => exact h.eq_of_length heq
      | cons_cons _ h => exact absurd rfl (hhead heq)
    · right
      apply h.eq_of_length
      rw [List.length_cons]
      omega
  · rintro (rfl | rfl)
    · exact List.sublist_cons_self [] L
    · exact List.Sublist.refl _

/-- The lines of a text are kept behind an empty line if nothing but a line break is dropped at its front. -/
theorem cleanFront_iff {drop : Char → Bool} (hdrop : drop '\n' = true) {text : List Char} (h : text.dropWhile drop ≠ []) :
    (lines text).Sublist ([] :: lines (text.dropWhile drop)) ↔ CleanFront drop text := by
  have hsplit := List.takeWhile_append_dropWhile (p := drop) (l := text)
  have hcount := congrArg (List.count '\n') hsplit
  rw [List.count_append] at hcount
  rw [sublist_emptyLine, ← lines_newline, lines_inj, lines_inj, CleanFront, and_iff_right h]
  · rw [length_lines, length_lines]
    omega
  · intro hlen hhead
    rw [length_lines, length_lines] at hlen
    have hnone : '\n' ∉ text.takeWhile drop := List.count_eq_zero.mp (by omega)
    rcases head_lines.mp hhead with rfl | hfirst
    · exact h rfl
    · cases text with
      | nil => cases hfirst
      | cons c rest =>
        obtain rfl : c = '\n' := Option.some.inj hfirst
        rw [List.takeWhile_cons_of_pos hdrop] at hnone
        exact hnone List.mem_cons_self

/-! ## Stripped texts -/

/-- A text that neither begins nor ends with a blank. -/
structure IsCore (text : List Char) : Prop where
  first : ∃ c rest, text = c :: rest ∧ isSpace c = false
  last : ∃ front c, text = front ++ [c] ∧ isSpace c = false

theorem dropWhile_core {a rest : List Char} (ha : ∀ c ∈ a, isSpace c = true) {c : Char} (hc : isSpace c = false) :
    (a ++ c :: rest).dropWhile isSpace = c :: rest := by
  rw [List.dropWhile_append_of_pos ha, List.dropWhile_cons_of_neg (by rw [hc]; exact Bool.false_ne_true)]

theorem lstrip_core {a core z : List Char} (ha : ∀ c ∈ a, isSpace c = true) (hcore : IsCore core) :
    lstrip (a ++ (core ++ z)) = core ++ z := by
  obtain ⟨c, rest, rfl, hc⟩ := hcore.first
  exact dropWhile_core ha hc

theorem rstrip_core {front core z : List Char} (hz : ∀ c ∈ z, isSpace c = true) (hcore : IsCore core) :
    rstrip (front ++ (core ++ z)) = front ++ core := by
  obtain ⟨init, c, rfl, hc⟩ := hcore.last
  have hback : ∀ d ∈ z.reverse, isSpace d = true := fun d hd => hz d (List.mem_reverse.mp hd)
  have hreverse : (front ++ (init ++ [c] ++ z)).reverse = z.reverse ++ c :: (init.reverse ++ front.reverse) := by simp
  rw [rstrip, hreverse, dropWhile_core hback hc]
  simp

theorem stripped_core {a core z : List Char} (ha : ∀ c ∈ a, isSpace c = true) (hz : ∀ c ∈ z, isSpace c = true)
    (hcore : IsCore core) : stripped (a ++ (core ++ z)) = core := by
  rw [stripped, lstrip_core ha hcore]
  exact @rstrip_core [] core z hz hcore

theorem lstrip_blank {text : List Char} (h : ∀ c ∈ text, isSpace c = true) : lstrip text = [] :=
  List.dropWhile_eq_nil_iff.mpr h

theorem stripped_blank {text : List Char} (h : ∀ c ∈ text, isSpace c = true) : stripped text = [] := by
  rw [stripped, lstrip_blank h]
  rfl

/-- A text is blank, or its stripped text with blanks at both ends. -/
theorem core_cases (text : List Char) : (∀ c ∈ text, isSpace c = true) ∨
    ∃ a z, text = a ++ (stripped text ++ z) ∧ (∀ c ∈ a, isSpace c = true) ∧ (∀ c ∈ z, isSpace c = true) ∧
      IsCore (stripped text) := by
  cases hleft : lstrip text with
  | nil => exact .inl (List.dropWhile_eq_nil_iff.mp hleft)
  | cons c rest =>
    right
    have hc : isSpace c = false := by
      have hnot := List.head?_dropWhile_not isSpace text
      rw [← lstrip, hleft] at hnot
      exact hnot
    have hback := (List.takeWhile_append_dropWhile (p := isSpace) (l := (lstrip text).reverse)).symm
    have hends : lstrip text = stripped text ++ ((lstrip text).reverse.takeWhile isSpace).reverse := by
      have hreverse := congrArg List.reverse hback
      rw [List.reverse_reverse, List.reverse_append] at hreverse
      exact hreverse
    refine ⟨text.takeWhile isSpace, ((lstrip text).reverse.takeWhile isSpace).reverse, ?_, ?_, ?_, ?_⟩
    · rw [← hends]
      exact (List.takeWhile_append_dropWhile).symm
    · exact fun d hd => List.mem_takeWhile_imp hd
    · exact fun d hd => List.mem_takeWhile_imp (List.mem_reverse.mp hd)
    · cases hkept : (lstrip text).reverse.dropWhile isSpace with
      | nil =>
        have hall := List.dropWhile_eq_nil_iff.mp hkept c (by rw [hleft]; simp)
        rw [hc] at hall
        cases hall
      | cons d front =>
        have hd : isSpace d = false := by
          have hnot := List.head?_dropWhile_not isSpace (lstrip text).reverse
          rw [hkept] at hnot
          exact hnot
        have hstripped : stripped text = front.reverse ++ [d] := by
          rw [stripped, rstrip, hkept, List.reverse_cons]
        constructor
        · rw [hleft, hstripped] at hends
          cases hfront : front.reverse with
          | nil =>
            rw [hfront] at hends
            exact ⟨d, [], by rw [hstripped, hfront]; rfl, hd⟩
          | cons e init =>
            rw [hfront] at hends
            obtain rfl : c = e := (List.cons.inj hends).1
            exact ⟨c, init ++ [d], by rw [hstripped, hfront]; rfl, hc⟩
        · exact ⟨front.reverse, d, hstripped, hd⟩

theorem stripped_nil_iff {text : List Char} : stripped text = [] ↔ ∀ c ∈ text, isSpace c = true := by
  constructor
  · intro h
    rcases core_cases text with hblank | ⟨a, z, -, -, -, hcore⟩
    · exact hblank
    · obtain ⟨c, rest, hrest, -⟩ := hcore.first
      rw [h] at hrest
      cases hrest
  · exact stripped_blank

/-- Blanks at the front of a text change nothing of what is stripped. -/
theorem stripped_lstrip (text : List Char) : stripped (lstrip text) = stripped text := by
  rw [stripped, stripped, lstrip, lstrip, dropWhile_dropWhile]

theorem rstrip_nil_iff {text : List Char} : rstrip text = [] ↔ stripped text = [] := by
  rw [stripped_nil_iff, rstrip, List.reverse_eq_nil_iff, List.dropWhile_eq_nil_iff]
  simp

/-- A text put in front of another that does not end in a blank. -/
theorem stripped_append {text added : List Char} (h : stripped text ≠ []) (hadded : IsCore added) :
    stripped (rstrip text ++ '\n' :: '\n' :: added) = stripped text ++ '\n' :: '\n' :: added := by
  rcases core_cases text with hblank | ⟨a, z, htext, ha, hz, hcore⟩
  · exact absurd (stripped_blank hblank) h
  · have hright : rstrip text = a ++ stripped text := by
      conv_lhs => rw [htext]
      exact rstrip_core hz hcore
    have hboth : IsCore (stripped text ++ '\n' :: '\n' :: added) := by
      obtain ⟨c, rest, hrest, hc⟩ := hcore.first
      obtain ⟨front, d, hfront, hd⟩ := hadded.last
      constructor
      · exact ⟨c, rest ++ '\n' :: '\n' :: added, by rw [hrest]; rfl, hc⟩
      · exact ⟨stripped text ++ '\n' :: '\n' :: front, d, by rw [hfront]; simp, hd⟩
    rw [hright, List.append_assoc]
    have hall := stripped_core ha (List.forall_mem_nil fun c => isSpace c = true) hboth
    rwa [List.append_nil] at hall

/-! ## Lines without the blank ones at the end -/

theorem isBlank_iff {line : List Char} : isBlank line = true ↔ ∀ c ∈ line, isSpace c = true := List.all_eq_true

theorem blank_lines {text : List Char} (h : ∀ c ∈ text, isSpace c = true) : ∀ line ∈ lines text, isBlank line = true :=
  fun _ hline => isBlank_iff.mpr fun c hc => h c (mem_lines hline hc).1

theorem trimmed_append {front back : List (List Char)} (h : ∀ line ∈ back, isBlank line = true) :
    trimmed (front ++ back) = trimmed front := by
  rw [trimmed, trimmed, List.reverse_append, List.dropWhile_append_of_pos fun line hl => h line (List.mem_reverse.mp hl)]

theorem trimmed_keep {front : List (List Char)} {last : List Char} (h : isBlank last = false) :
    trimmed (front ++ [last]) = front ++ [last] := by
  rw [trimmed, List.reverse_append, List.reverse_singleton, List.singleton_append,
    List.dropWhile_cons_of_neg (by rw [h]; exact Bool.false_ne_true), ← List.singleton_append, List.reverse_append,
    List.reverse_reverse, List.reverse_singleton]

/-- The trimmed lines of a text are those of its stripped text with blanks in front and on its last line. -/
theorem trimmed_lines {text : List Char} (h : stripped text ≠ []) : ∃ a z, (∀ c ∈ a, isSpace c = true) ∧
    '\n' ∉ z ∧ IsCore (stripped text) ∧ trimmed (lines text) = lines (a ++ (stripped text ++ z)) := by
  rcases core_cases text with hblank | ⟨a, z, htext, ha, hz, hcore⟩
  · exact absurd (stripped_blank hblank) h
  · have hz₀ : '\n' ∉ z.takeWhile fun c => decide (c ≠ '\n') := by
      intro hmem
      simpa using List.mem_takeWhile_imp hmem
    refine ⟨a, z.takeWhile fun c => decide (c ≠ '\n'), ha, hz₀, hcore, ?_⟩
    have hkeep : trimmed (lines (a ++ (stripped text ++ z.takeWhile fun c => decide (c ≠ '\n')))) =
        lines (a ++ (stripped text ++ z.takeWhile fun c => decide (c ≠ '\n'))) := by
      obtain ⟨init, d, hlast, hd⟩ := hcore.last
      have hv : '\n' ∉ d :: z.takeWhile fun c => decide (c ≠ '\n') := by
        rw [List.mem_cons, not_or]
        refine ⟨?_, hz₀⟩
        rintro rfl
        exact Bool.false_ne_true (hd.symm.trans (by decide))
      obtain ⟨front, w, hlines⟩ := lines_last (a ++ init) hv
      have hsame : a ++ (stripped text ++ z.takeWhile fun c => decide (c ≠ '\n')) =
          a ++ init ++ d :: z.takeWhile fun c => decide (c ≠ '\n') := by
        rw [hlast]
        simp
      rw [hsame, hlines]
      apply trimmed_keep
      rw [← Bool.not_eq_true, isBlank_iff]
      intro hall
      rw [hall d (by simp)] at hd
      cases hd
    cases hrest : z.dropWhile fun c => decide (c ≠ '\n') with
    | nil =>
      have hz' : z.takeWhile (fun c => decide (c ≠ '\n')) = z := by
        have hparts := List.takeWhile_append_dropWhile (p := fun c => decide (c ≠ '\n')) (l := z)
        rwa [hrest, List.append_nil] at hparts
      rw [hz'] at hkeep ⊢
      rw [← htext] at hkeep ⊢
      exact hkeep
    | cons e more =>
      have he : e = '\n' := by
        have hnot := List.head?_dropWhile_not (fun c => decide (c ≠ '\n')) z
        rw [hrest] at hnot
        simpa using hnot
      have hparts := (List.takeWhile_append_dropWhile (p := fun c => decide (c ≠ '\n')) (l := z)).symm
      rw [hrest, he] at hparts
      have hmore : ∀ c ∈ more, isSpace c = true := by
        intro c hc
        apply hz
        rw [hparts]
        simp [hc]
      have hwhole : text = a ++ (stripped text ++ z.takeWhile fun c => decide (c ≠ '\n')) ++ '\n' :: more := by
        conv_lhs => rw [htext, hparts]
        simp
      conv_lhs => rw [hwhole, lines_append, trimmed_append (blank_lines hmore)]
      exact hkeep

/-! ## What the expression finds -/

/-- A start of the metadata follows a line break behind blanks. -/
theorem mem_starts {text start : List Char} (h : start ∈ starts text) :
    ∃ w, (∀ c ∈ w, isSpace c = true) ∧ text = w ++ '\n' :: start := by
  induction text with
  | nil => cases h
  | cons c rest ih =>
    rw [starts] at h
    by_cases hc : isSpace c = true
    · rw [if_pos hc] at h
      rcases List.mem_append.mp h with h | h
      · obtain ⟨w, hw, rfl⟩ := ih h
        exact ⟨c :: w, List.forall_mem_cons.mpr ⟨hc, hw⟩, rfl⟩
      · by_cases hn : c = '\n'
        · rw [if_pos hn, List.mem_singleton] at h
          exact ⟨[], List.forall_mem_nil _, by rw [hn, h]; rfl⟩
        · rw [if_neg hn] at h
          cases h
    · rw [if_neg hc] at h
      cases h

/-- A line with more than blanks has no start in it. -/
theorem starts_line {line : List Char} (hline : '\n' ∉ line) (hblank : isBlank line = false) (tail : List Char) :
    starts (line ++ tail) = [] := by
  induction line with
  | nil => cases hblank
  | cons c line ih =>
    rw [List.mem_cons, not_or] at hline
    rw [List.cons_append, starts]
    by_cases hc : isSpace c = true
    · have hrest : isBlank line = false := by
        rw [isBlank, List.all_cons, hc, Bool.true_and] at hblank
        exact hblank
      rw [if_pos hc, ih hline.2 hrest, if_neg (Ne.symm hline.1)]
      rfl
    · rw [if_neg hc]

/-- The longest run of blanks leads to the first line with more than blanks. -/
theorem starts_head {w start : List Char} (hw : ∀ c ∈ w, isSpace c = true) (hstart : starts start = []) :
    ∃ more, starts (w ++ '\n' :: start) = start :: more := by
  induction w with
  | nil =>
    refine ⟨[], ?_⟩
    have hn : isSpace '\n' = true := by decide
    rw [List.nil_append, starts, if_pos hn, hstart, if_pos rfl]
    rfl
  | cons c w ih =>
    obtain ⟨more, hmore⟩ := ih fun d hd => hw d (List.mem_cons_of_mem c hd)
    rw [List.cons_append, starts, if_pos (hw c List.mem_cons_self), hmore]
    exact ⟨_, rfl⟩

theorem rule_newline (line tail : List Char) : rule.isPrefixOf (line ++ '\n' :: tail) = rule.isPrefixOf line := by
  match line with
  | [] => rfl
  | [a] => simp [rule, List.isPrefixOf]
  | [a, b] => simp [rule, List.isPrefixOf]
  | a :: b :: c :: rest => simp [rule, List.isPrefixOf]

theorem rule_joined (line : List Char) (rest : List (List Char)) :
    rule.isPrefixOf (joined (line :: rest)) = rule.isPrefixOf line := by
  cases rest with
  | nil => rw [joined_single]
  | cons next rest => rw [joined_cons line (List.cons_ne_nil _ _), rule_newline]

/-- A closing rule stands at the front of a line. -/
theorem breakClosing_line {line : List Char} (hline : '\n' ∉ line) (tail : List Char) :
    breakClosing (line ++ '\n' :: tail) = if rule.isPrefixOf tail = true then some (line, tail.drop 3)
      else (breakClosing tail).map fun parts => (line ++ '\n' :: parts.1, parts.2) := by
  induction line with
  | nil =>
    rw [List.nil_append, breakClosing, List.isPrefixOf_cons_cons]
    simp
  | cons c line ih =>
    rw [List.mem_cons, not_or] at hline
    have hc : ('\n' == c) = false := by simpa using hline.1
    rw [List.cons_append, breakClosing, List.isPrefixOf_cons_cons, hc, Bool.false_and, if_neg Bool.false_ne_true, ih hline.2]
    split
    · rfl
    · simp [Function.comp_def]

/-- What the expression finds closes the text in front of it with the first line that begins with a rule. -/
theorem breakClosing_joined {first closing : List Char} {block behind : List (List Char)} (hfirst : '\n' ∉ first)
    (hblock : ∀ line ∈ block, '\n' ∉ line ∧ rule.isPrefixOf line = false) (hclosing : rule.isPrefixOf closing = true) :
    breakClosing (joined (first :: (block ++ closing :: behind))) =
      some (joined (first :: block), (joined (closing :: behind)).drop 3) := by
  induction block generalizing first with
  | nil =>
    rw [List.nil_append, joined_cons first (List.cons_ne_nil _ _), breakClosing_line hfirst, rule_joined, if_pos hclosing,
      joined_single]
  | cons line block ih =>
    obtain ⟨hnewline, hrule⟩ := hblock line List.mem_cons_self
    have hrest := ih hnewline fun l hl => hblock l (List.mem_cons_of_mem line hl)
    rw [List.cons_append, joined_cons first (List.cons_ne_nil _ _), breakClosing_line hfirst, rule_joined, hrule,
      if_neg Bool.false_ne_true, hrest, Option.map_some, joined_cons first (List.cons_ne_nil _ _)]

theorem breakClosing_parts {text : List Char} {parts : List Char × List Char} (h : breakClosing text = some parts) :
    text = parts.1 ++ '\n' :: (rule ++ parts.2) := by
  induction text generalizing parts with
  | nil => cases h
  | cons c rest ih =>
    rw [breakClosing] at h
    by_cases hmark : ('\n' :: rule).isPrefixOf (c :: rest) = true
    · rw [if_pos hmark] at h
      obtain ⟨after, hafter⟩ := List.isPrefixOf_iff_prefix.mp hmark
      obtain ⟨rfl, rfl⟩ := List.cons.inj hafter
      rw [← Option.some.inj h]
      simp [rule]
    · rw [if_neg hmark] at h
      obtain ⟨found, hfound, rfl⟩ := Option.map_eq_some_iff.mp h
      rw [ih hfound]
      rfl

/-! ## Front matter and the expression -/

section
variable {κ ν : Type} [DecidableEq κ] {y : Yaml κ ν}

theorem isRule_parts {line : List Char} (h : isRule line = true) :
    rule.isPrefixOf line = true ∧ ∃ z, line = rule ++ z ∧ ∀ c ∈ z, isSpace c = true := by
  rw [isRule, Bool.and_eq_true] at h
  obtain ⟨z, rfl⟩ := List.isPrefixOf_iff_prefix.mp h.1
  exact ⟨h.1, z, rfl, isBlank_iff.mp h.2⟩

/-- A rule with blanks behind it is a rule on the first line. -/
theorem rule_first_line {w : List Char} (hw : ∀ c ∈ w, isSpace c = true) :
    ∃ line more, lines (rule ++ w) = line :: more ∧ isRule line = true := by
  have hrule : ∀ z, (∀ c ∈ z, isSpace c = true) → isRule (rule ++ z) = true := by
    intro z hz
    rw [isRule, List.isPrefixOf_iff_prefix.mpr (List.prefix_append _ _), Bool.true_and]
    exact isBlank_iff.mpr hz
  by_cases hmem : '\n' ∈ w
  · obtain ⟨z, rest, rfl, hz⟩ := List.eq_append_cons_of_mem hmem
    refine ⟨rule ++ z, lines rest, ?_, hrule z fun c hc => hw c (List.mem_append_left _ hc)⟩
    rw [← List.append_assoc, lines_cons (rule ++ z) rest]
    exact fun h => (List.mem_append.mp h).elim (by decide) hz
  · refine ⟨rule ++ w, [], lines_single ?_, hrule w hw⟩
    exact fun h => (List.mem_append.mp h).elim (by decide) hmem

theorem starts_mem {w : List Char} (hw : ∀ c ∈ w, isSpace c = true) (start : List Char) : start ∈ starts (w ++ '\n' :: start) := by
  induction w with
  | nil =>
    have hn : isSpace '\n' = true := by decide
    rw [List.nil_append, starts, if_pos hn, if_pos rfl]
    simp
  | cons c w ih =>
    rw [List.forall_mem_cons] at hw
    rw [List.cons_append, starts, if_pos hw.1]
    exact List.mem_append_left _ (ih hw.2)

theorem breakClosing_ne_none (u v : List Char) : breakClosing (u ++ '\n' :: (rule ++ v)) ≠ none := by
  induction u with
  | nil => simp [breakClosing, rule]
  | cons c u ih =>
    rw [List.cons_append, breakClosing]
    split
    · exact Option.some_ne_none _
    · rwa [ne_eq, Option.map_eq_none_iff]

/-- The expression matches a rule on the first line with another rule somewhere behind it. -/
theorem matchFrontmatter_ne_none {w : List Char} (hw : ∀ c ∈ w, isSpace c = true) (u v : List Char) :
    matchFrontmatter (rule ++ (w ++ '\n' :: (u ++ '\n' :: (rule ++ v)))) ≠ none := by
  have hprefix : rule.isPrefixOf (rule ++ (w ++ '\n' :: (u ++ '\n' :: (rule ++ v)))) = true :=
    List.isPrefixOf_iff_prefix.mpr (List.prefix_append _ _)
  have hdrop : (rule ++ (w ++ '\n' :: (u ++ '\n' :: (rule ++ v)))).drop 3 = w ++ '\n' :: (u ++ '\n' :: (rule ++ v)) := rfl
  rw [matchFrontmatter, if_pos hprefix, hdrop]
  intro h
  have hnone := List.findSome?_eq_none_iff.mp h _ (starts_mem hw _)
  exact breakClosing_ne_none u v (Option.map_eq_none_iff.mp hnone)

/-- The first line of a stripped text has more than blanks in it. -/
theorem IsCore.first_line {text first : List Char} {more : List (List Char)} (h : IsCore text)
    (hlines : lines text = first :: more) : isBlank first = false := by
  obtain ⟨c, rest, rfl, hc⟩ := h.first
  have hne : c ≠ '\n' := by
    rintro rfl
    exact absurd hc (by decide)
  obtain ⟨line, later, hline⟩ := lines_char hne rest
  obtain ⟨rfl, -⟩ := List.cons.inj (hlines.symm.trans hline)
  rw [isBlank, List.all_cons, hc, Bool.false_and]

/-- The lines of a front matter. -/
structure Block (y : Yaml κ ν) (m : Mapping κ ν) (opening first closing : List Char) (blanks block : List (List Char)) : Prop where
  opens : isRule opening = true
  blank : ∀ line ∈ blanks, isBlank line = true
  first_text : isBlank first = false
  first_rule : isRule first = false
  block_rule : ∀ line ∈ block, rule.isPrefixOf line = false
  closes : isRule closing = true
  load : y.load (joined (first :: block)) = some m

theorem Block.frontMatter {m : Mapping κ ν} {opening first closing : List Char} {blanks block : List (List Char)}
    (h : Block y m opening first closing blanks block) (behind : List (List Char)) :
    frontMatter y (opening :: (blanks ++ first :: (block ++ closing :: behind))) = some (m, behind) := by
  have hrule : rule.isPrefixOf closing = true := (isRule_parts h.closes).1
  have hkeep : ∀ line ∈ block, (!rule.isPrefixOf line) = true := fun line hl => by rw [h.block_rule line hl]; rfl
  have hdrop : (block ++ closing :: behind).dropWhile (fun line => !rule.isPrefixOf line) = closing :: behind := by
    rw [List.dropWhile_append_of_pos hkeep, List.dropWhile_cons_of_neg (by simp [hrule])]
  have htake : (block ++ closing :: behind).takeWhile (fun line => !rule.isPrefixOf line) = block := by
    rw [List.takeWhile_append_of_pos hkeep, List.takeWhile_cons_of_neg (by simp [hrule]), List.append_nil]
  rw [FrontMatter.frontMatter, List.dropWhile_append_of_pos h.blank,
    List.dropWhile_cons_of_neg (by rw [h.first_text]; exact Bool.false_ne_true)]
  simp only [hdrop, htake]
  rw [if_pos ⟨h.opens, h.first_rule, h.closes⟩, h.load]
  rfl

theorem frontMatter_block {texts behind : List (List Char)} {m : Mapping κ ν} (h : frontMatter y texts = some (m, behind)) :
    ∃ opening first closing blanks block, Block y m opening first closing blanks block ∧
      texts = opening :: (blanks ++ first :: (block ++ closing :: behind)) := by
  cases texts with
  | nil => cases h
  | cons opening rest =>
    rw [frontMatter] at h
    cases hfirst : rest.dropWhile isBlank with
    | nil => rw [hfirst] at h; cases h
    | cons first more =>
      rw [hfirst] at h
      cases hclosing : more.dropWhile fun line => !rule.isPrefixOf line with
      | nil => simp only [hclosing] at h; cases h
      | cons closing later =>
        simp only [hclosing] at h
        split at h
        · rename_i hrules
          obtain ⟨m', hload, hpair⟩ := Option.map_eq_some_iff.mp h
          obtain ⟨rfl, rfl⟩ := Prod.mk.inj hpair
          have hrest := List.takeWhile_append_dropWhile (p := isBlank) (l := rest)
          have hmore := List.takeWhile_append_dropWhile (p := fun line => !rule.isPrefixOf line) (l := more)
          rw [hfirst] at hrest
          rw [hclosing] at hmore
          refine ⟨opening, first, closing, rest.takeWhile isBlank, more.takeWhile fun line => !rule.isPrefixOf line, ?_, ?_⟩
          · constructor
            · exact hrules.1
            · exact fun line hl => List.mem_takeWhile_imp hl
            · have hnot := List.head?_dropWhile_not isBlank rest
              rw [hfirst] at hnot
              exact hnot
            · exact hrules.2.1
            · intro line hl
              simpa using List.mem_takeWhile_imp hl
            · exact hrules.2.2
            · exact hload
          · rw [hmore, hrest]
        · cases h

theorem joined_blank {blanks : List (List Char)} (h : ∀ line ∈ blanks, isBlank line = true) :
    ∀ c ∈ joined blanks, isSpace c = true := by
  induction blanks with
  | nil => exact List.forall_mem_nil _
  | cons line blanks ih =>
    have hline := isBlank_iff.mp (h line List.mem_cons_self)
    cases blanks with
    | nil => rwa [joined_single]
    | cons next blanks =>
      rw [joined_cons line (List.cons_ne_nil next blanks), List.forall_mem_append, List.forall_mem_cons]
      exact ⟨hline, by decide, ih fun l hl => h l (List.mem_cons_of_mem line hl)⟩

/-- The expression takes a front matter for what it is. -/
theorem matchFrontmatter_block {text : List Char} {m : Mapping κ ν} {behind : List (List Char)}
    (h : frontMatter y (lines text) = some (m, behind)) :
    ∃ block, matchFrontmatter text = some (block, lstrip (joined behind)) ∧ y.load block = some m := by
  obtain ⟨opening, first, closing, blanks, block, hblock, htexts⟩ := frontMatter_block h
  have hfree : ∀ line ∈ opening :: (blanks ++ first :: (block ++ closing :: behind)), '\n' ∉ line :=
    fun line hl => no_newline (htexts ▸ hl)
  obtain ⟨-, z, rfl, hz⟩ := isRule_parts hblock.opens
  obtain ⟨hclosing, z', rfl, hz'⟩ := isRule_parts hblock.closes
  have htext : ∃ w, (∀ c ∈ w, isSpace c = true) ∧
      text = rule ++ (w ++ '\n' :: joined (first :: (block ++ (rule ++ z') :: behind))) := by
    rw [← joined_lines text, htexts, joined_cons _ (by simp)]
    by_cases hblanks : blanks = []
    · exact ⟨z, hz, by rw [hblanks, List.nil_append, List.append_assoc]⟩
    · refine ⟨z ++ '\n' :: joined blanks, ?_, ?_⟩
      · rw [List.forall_mem_append, List.forall_mem_cons]
        exact ⟨hz, by decide, joined_blank hblock.blank⟩
      · rw [joined_append hblanks (List.cons_ne_nil _ _)]
        simp
  obtain ⟨w, hw, rfl⟩ := htext
  have hstart : starts (joined (first :: (block ++ (rule ++ z') :: behind))) = [] := by
    rw [joined_cons first (by simp)]
    exact starts_line (hfree first (by simp)) hblock.first_text _
  obtain ⟨more, hmore⟩ := starts_head hw hstart
  have hclose : breakClosing (joined (first :: (block ++ (rule ++ z') :: behind))) =
      some (joined (first :: block), (joined ((rule ++ z') :: behind)).drop 3) :=
    breakClosing_joined (hfree first (by simp)) (fun line hl => ⟨hfree line (by simp [hl]), hblock.block_rule line hl⟩) hclosing
  have hbody : lstrip ((joined ((rule ++ z') :: behind)).drop 3) = lstrip (joined behind) := by
    cases behind with
    | nil =>
      rw [joined_single]
      exact lstrip_blank hz'
    | cons next behind =>
      rw [joined_cons _ (List.cons_ne_nil next behind)]
      have hall : ∀ c ∈ z' ++ ['\n'], isSpace c = true := by
        rw [List.forall_mem_append]
        exact ⟨hz', List.forall_mem_singleton.mpr (by decide)⟩
      have hcut : lstrip (z' ++ ['\n'] ++ joined (next :: behind)) = lstrip (joined (next :: behind)) :=
        List.dropWhile_append_of_pos hall
      rw [List.append_assoc] at hcut
      exact hcut
  refine ⟨joined (first :: block), ?_, hblock.load⟩
  have hprefix : rule.isPrefixOf (rule ++ (w ++ '\n' :: joined (first :: (block ++ (rule ++ z') :: behind)))) = true :=
    List.isPrefixOf_iff_prefix.mpr (List.prefix_append _ _)
  have hdrop : (rule ++ (w ++ '\n' :: joined (first :: (block ++ (rule ++ z') :: behind)))).drop 3 =
      w ++ '\n' :: joined (first :: (block ++ (rule ++ z') :: behind)) := rfl
  rw [matchFrontmatter, if_pos hprefix, hdrop, hmore, List.findSome?_cons, hclose, Option.map_some, hbody]

/-- What the expression finds stands between two rules. -/
theorem matchFrontmatter_parts {text block body : List Char} (h : matchFrontmatter text = some (block, body)) :
    ∃ w after, (∀ c ∈ w, isSpace c = true) ∧ text = rule ++ (w ++ '\n' :: (block ++ '\n' :: (rule ++ after))) ∧
      body = lstrip after := by
  rw [matchFrontmatter] at h
  by_cases hrule : rule.isPrefixOf text = true
  · rw [if_pos hrule] at h
    obtain ⟨rest, rfl⟩ := List.isPrefixOf_iff_prefix.mp hrule
    obtain ⟨start, hstart, hfound⟩ := List.exists_of_findSome?_eq_some h
    obtain ⟨parts, hparts, hpair⟩ := Option.map_eq_some_iff.mp hfound
    obtain ⟨rfl, rfl⟩ := Prod.mk.inj hpair
    obtain ⟨w, hw, hrest⟩ := mem_starts hstart
    refine ⟨w, parts.2, hw, ?_, rfl⟩
    rw [← breakClosing_parts hparts, ← hrest]
    rfl
  · rw [if_neg hrule] at h
    cases h

/-! ## Splitting and rendering -/

theorem lstrip_rule (rest : List Char) : lstrip (rule ++ rest) = rule ++ rest := by
  rw [lstrip, rule, List.cons_append, List.dropWhile_cons_of_neg (by decide)]

theorem splitDocument_none {text : List Char} (h : matchFrontmatter text = none) : splitDocument y text = (Table.empty, text) := by
  rw [splitDocument, parseFrontmatter, h, ite_self]

theorem splitDocument_some {text block body : List Char} (h : matchFrontmatter text = some (block, body)) :
    splitDocument y text = ((y.load block).getD Table.empty, body) := by
  obtain ⟨w, after, -, rfl, -⟩ := matchFrontmatter_parts h
  rw [splitDocument, lstrip_rule, if_pos (List.isPrefixOf_iff_prefix.mpr (List.prefix_append _ _)), parseFrontmatter, h]

theorem splitDocument_block {text : List Char} {m : Mapping κ ν} {behind : List (List Char)}
    (h : frontMatter y (lines text) = some (m, behind)) : splitDocument y text = (m, lstrip (joined behind)) := by
  obtain ⟨block, hmatch, hload⟩ := matchFrontmatter_block h
  rw [splitDocument_some hmatch, hload]
  rfl

/-- The lines behind the front matter of a rendered document. -/
def bodyLines (body : List Char) : List (List Char) := if body = [] then [[]] else [] :: lines body

/-- The front matter of a rendered document is what was rendered. -/
theorem frontMatter_render {m : Mapping κ ν} (h : m.rows ≠ []) (bodyText : List Char) :
    frontMatter y (lines (renderDocument y m bodyText)) =
      some (m, bodyLines (bodyText.dropWhile fun c => decide (c = '\n'))) := by
  have hload := y.load_dump m h
  have htext : stripped (y.dump m) ≠ [] := by
    intro hnil
    rw [hnil, y.load_blank [] (List.forall_mem_nil _)] at hload
    cases hload
  obtain ⟨first, block, hlines⟩ := List.exists_cons_of_ne_nil (lines_ne_nil (stripped (y.dump m)))
  have hrule : ∀ line ∈ first :: block, rule.isPrefixOf line = false := hlines ▸ y.dump_lines m h
  have hfirst : isBlank first = false := by
    rcases core_cases (y.dump m) with hblank | ⟨-, -, -, -, -, hcore⟩
    · exact absurd (stripped_blank hblank) htext
    · exact hcore.first_line hlines
  have hblock : Block y m rule first rule [] block := by
    constructor
    · decide
    · exact List.forall_mem_nil _
    · exact hfirst
    · rw [isRule, hrule first List.mem_cons_self, Bool.false_and]
    · exact fun line hl => hrule line (List.mem_cons_of_mem first hl)
    · decide
    · rw [← hlines]
      exact (congrArg y.load (joined_lines _)).trans hload
  have hbody : ∀ body : List Char, lines (if body ≠ [] then '\n' :: body else []) = bodyLines body := by
    intro body
    by_cases hnil : body = []
    · rw [if_neg (not_not_intro hnil), bodyLines, if_pos hnil]
      rfl
    · rw [if_pos hnil, bodyLines, if_neg hnil, lines_newline]
  have hfree : '\n' ∉ rule := by decide
  rw [renderDocument, lines_cons rule _ hfree, lines_append, lines_cons rule _ hfree, hbody, hlines]
  exact hblock.frontMatter (bodyLines (bodyText.dropWhile fun c => decide (c = '\n')))

/-! ## Editing -/

theorem find?_setEntry (m : Mapping κ ν) (entry : κ × ν) {key : κ} (h : key ≠ entry.1) :
    (setEntry m entry).find? key = m.find? key := by
  rw [setEntry, Table.find?_overwrite, if_neg h]

/-- An edit leaves the other entries as they are. -/
theorem find?_apply {e : Edits κ ν} {key : κ} (h : key ∉ e.entries.map Prod.fst) (m : Mapping κ ν) :
    (e.apply m).find? key = m.find? key := by
  rw [Edits.apply]
  generalize e.entries = entries at h
  induction entries generalizing m with
  | nil => rfl
  | cons entry entries ih =>
    rw [List.map_cons, List.mem_cons, not_or] at h
    rw [List.foldl_cons, ih _ h.2, find?_setEntry m entry h.1]

theorem setEntry_rows (m : Mapping κ ν) (entry : κ × ν) : (setEntry m entry).rows ≠ [] := by
  have hfound : (setEntry m entry).find? entry.1 = some entry := by
    rw [setEntry, Table.find?_overwrite, if_pos rfl]
  exact List.ne_nil_of_mem (Table.find?_some hfound).2

theorem apply_rows {e : Edits κ ν} (h : e.changed = true) (m : Mapping κ ν) : (e.apply m).rows ≠ [] := by
  rw [Edits.changed, Bool.not_eq_true', List.isEmpty_eq_false_iff] at h
  rw [Edits.apply, ← List.dropLast_concat_getLast h, List.foldl_concat]
  exact setEntry_rows _ _

theorem mergeDocument_unchanged {e : Edits κ ν} (h : e.changed = false) (text : List Char) : mergeDocument y text e = text := by
  have hentries : e.entries = [] := by
    rwa [Edits.changed, Bool.not_eq_false', List.isEmpty_iff] at h
  by_cases hrule : rule.isPrefixOf (lstrip text) = true
  · simp only [mergeDocument, if_pos (And.intro h hrule)]
  · simp [mergeDocument, splitDocument, hrule, Edits.apply, hentries, Table.empty]

theorem mergeDocument_changed {e : Edits κ ν} (h : e.changed = true) (text : List Char) :
    mergeDocument y text e = renderDocument y (e.apply (splitDocument y text).1) (splitDocument y text).2 := by
  have hkeep : ¬(e.changed = false ∧ rule.isPrefixOf (lstrip text) = true) := by simp [h]
  rw [mergeDocument]
  simp only [if_neg hkeep, if_neg (apply_rows h _)]

theorem frontMatter_merge {e : Edits κ ν} (h : e.changed = true) (text : List Char) :
    frontMatter y (lines (mergeDocument y text e)) = some (e.apply (splitDocument y text).1,
      bodyLines ((splitDocument y text).2.dropWhile fun c => decide (c = '\n'))) := by
  rw [mergeDocument_changed h, frontMatter_render (apply_rows h _)]

theorem documentLines_merge {e : Edits κ ν} (h : e.changed = true) (text : List Char) :
    documentLines y (mergeDocument y text e) = bodyLines ((splitDocument y text).2.dropWhile fun c => decide (c = '\n')) := by
  rw [documentLines, frontMatter_merge h]
  rfl

theorem documentLines_block {text : List Char} {m : Mapping κ ν} {behind : List (List Char)}
    (h : frontMatter y (lines text) = some (m, behind)) : documentLines y text = behind := by
  rw [documentLines, h]
  rfl

theorem documentLines_none {text : List Char} (h : frontMatter y (lines text) = none) : documentLines y text = lines text := by
  rw [documentLines, h]
  rfl

theorem keepsEntries_merge {e : Edits κ ν} (h : e.changed = true) (text : List Char) :
    KeepsEntries y (e.entries.map Prod.fst) text (mergeDocument y text e) := by
  intro m behind hblock
  refine ⟨_, _, frontMatter_merge h text, ?_⟩
  intro key entry hfind hkey
  rw [splitDocument_block hblock, find?_apply hkey]
  exact hfind

/-- The body keeps the lines of a text if nothing but a line break is dropped at its front. -/
theorem bodyLines_iff {drop : Char → Bool} (hdrop : drop '\n' = true) (text : List Char) :
    (lines text).Sublist (bodyLines (text.dropWhile drop)) ↔ CleanFront drop text := by
  by_cases hnil : text.dropWhile drop = []
  · rw [CleanFront, hnil, bodyLines, if_pos rfl]
    constructor
    · intro h
      have hone : lines text = lines [] := h.eq_of_length (by have := h.length_le; have := length_lines text; grind)
      exact .inl (lines_inj.mp hone)
    · rintro (rfl | ⟨h, -⟩)
      · exact List.Sublist.refl _
      · exact absurd rfl h
  · rw [bodyLines, if_neg hnil]
    exact cleanFront_iff hdrop hnil

theorem dropWhile_lstrip (text : List Char) : (lstrip text).dropWhile (fun c => decide (c = '\n')) = lstrip text := by
  cases hleft : lstrip text with
  | nil => rfl
  | cons c rest =>
    have hc : isSpace c = false := by
      have hnot := List.head?_dropWhile_not isSpace text
      rw [← lstrip, hleft] at hnot
      exact hnot
    apply List.dropWhile_cons_of_neg
    rw [decide_eq_true_eq]
    rintro rfl
    exact absurd hc (by decide)

/-- A body has two line breaks less than the text it is found in. -/
theorem count_match {text block body : List Char} (h : matchFrontmatter text = some (block, body)) :
    body.count '\n' + 2 ≤ text.count '\n' := by
  obtain ⟨w, after, -, rfl, rfl⟩ := matchFrontmatter_parts h
  have hle := (List.dropWhile_sublist isSpace (l := after)).count_le '\n'
  simp only [lstrip, List.count_append, List.count_cons_self]
  omega

theorem length_bodyLines (body : List Char) :
    (bodyLines (body.dropWhile fun c => decide (c = '\n'))).length ≤ body.count '\n' + 2 := by
  have hle := (List.dropWhile_sublist (fun c => decide (c = '\n')) (l := body)).count_le '\n'
  rw [bodyLines]
  split
  · simp
  · rw [List.length_cons, length_lines]
    omega

theorem joined_behind {text : List Char} {m : Mapping κ ν} {behind : List (List Char)}
    (h : frontMatter y (lines text) = some (m, behind)) : behind = [] ∨ lines (joined behind) = behind := by
  obtain ⟨opening, first, closing, blanks, block, -, htexts⟩ := frontMatter_block h
  by_cases hnil : behind = []
  · exact .inl hnil
  · refine .inr (lines_joined (fun line hl => ?_) hnil)
    have hmem : line ∈ lines text := by
      rw [htexts]
      simp [hl]
    exact no_newline hmem

/-- An edit keeps a document exactly in the safe texts, or where it sets nothing. -/
theorem mergeKeeps_iff (text : List Char) (e : Edits κ ν) :
    MergeKeeps y text e ↔ e.changed = false ∨ MergeSafe y text := by
  cases hchanged : e.changed with
  | false =>
    rw [MergeKeeps, mergeDocument_unchanged hchanged]
    refine iff_of_true ⟨List.Sublist.refl _, ?_⟩ (.inl rfl)
    exact fun m behind h => ⟨m, behind, h, fun key entry hfind _ => hfind⟩
  | true =>
    rw [MergeKeeps, and_iff_left (keepsEntries_merge hchanged text), documentLines_merge hchanged, MergeSafe]
    simp only [Bool.true_eq_false, false_or]
    cases hblock : frontMatter y (lines text) with
    | some found =>
      obtain ⟨m, behind⟩ := found
      rw [documentLines_block hblock, splitDocument_block hblock, dropWhile_lstrip]
      show behind.Sublist (bodyLines (lstrip (joined behind))) ↔ CleanFront isSpace (joined behind)
      rcases joined_behind hblock with rfl | hlines
      · exact iff_of_true (List.nil_sublist _) (.inl rfl)
      · have hfront := @bodyLines_iff isSpace (by decide) (joined behind)
        rwa [hlines] at hfront
    | none =>
      rw [documentLines_none hblock]
      cases hmatch : matchFrontmatter text with
      | none =>
        rw [splitDocument_none hmatch, and_iff_right rfl]
        exact bodyLines_iff (by decide) text
      | some found =>
        obtain ⟨block, body⟩ := found
        refine iff_of_false ?_ (fun h => Option.some_ne_none _ h.1)
        rw [splitDocument_some hmatch]
        intro h
        have hlen : (lines text).length ≤ (bodyLines (body.dropWhile fun c => decide (c = '\n'))).length := h.length_le
        have hbound := length_bodyLines body
        have hcount := count_match hmatch
        rw [length_lines] at hlen
        omega

/-! ## Appending -/

theorem trimmed_blank {text : List Char} (h : stripped text = []) : trimmed (lines text) = [] := by
  have hback := @trimmed_append [] _ (blank_lines (stripped_nil_iff.mp h))
  rwa [List.nil_append] at hback

theorem trimmed_text {text : List Char} (h : stripped text ≠ []) :
    trimmed (lines text) ≠ [] ∧ (stripped text).count '\n' + 1 ≤ (trimmed (lines text)).length := by
  obtain ⟨a, z, -, -, -, hlines⟩ := trimmed_lines h
  rw [hlines]
  refine ⟨lines_ne_nil _, ?_⟩
  rw [length_lines, List.count_append, List.count_append]
  omega

/-- The trimmed lines of a text may stand for the lines of its stripped text behind an empty line. -/
theorem trimmed_iff {text : List Char} (h : stripped text ≠ []) :
    (trimmed (lines text)).Sublist ([] :: lines (stripped text)) ↔ CleanEnds text := by
  obtain ⟨a, z, ha, hz, hcore, hlines⟩ := trimmed_lines h
  have hlen : (lines (a ++ (stripped text ++ z))).length = a.count '\n' + (lines (stripped text)).length := by
    rw [length_lines, length_lines, List.count_append, List.count_append, List.count_eq_zero.mpr hz]
    omega
  rw [CleanEnds, hlines]
  apply sublist_emptyLine
  · omega
  · intro heq hhead
    have hnone : '\n' ∉ a := List.count_eq_zero.mp (by omega)
    obtain ⟨c, rest, hrest, hc⟩ := hcore.first
    rw [hrest] at hhead
    cases a with
    | nil =>
      rcases head_lines.mp hhead with hnil | hfirst
      · cases hnil
      · rw [Option.some.inj hfirst] at hc
        exact absurd hc (by decide)
    | cons d a =>
      rcases head_lines.mp hhead with hnil | hfirst
      · cases hnil
      · rw [Option.some.inj hfirst] at hnone
        exact hnone List.mem_cons_self

/-- A body with a section behind it. -/
def withSection (body added : List Char) : List Char :=
  if stripped body = [] then added else stripped body ++ '\n' :: '\n' :: added

theorem IsCore.append {a b : List Char} (ha : IsCore a) (hb : IsCore b) (middle : List Char) : IsCore (a ++ (middle ++ b)) := by
  obtain ⟨c, rest, rfl, hc⟩ := ha.first
  obtain ⟨front, d, rfl, hd⟩ := hb.last
  constructor
  · exact ⟨c, rest ++ (middle ++ (front ++ [d])), rfl, hc⟩
  · exact ⟨c :: rest ++ (middle ++ front), d, by simp, hd⟩

theorem stripped_isCore {text : List Char} (h : stripped text ≠ []) : IsCore (stripped text) := by
  rcases core_cases text with hblank | ⟨-, -, -, -, -, hcore⟩
  · exact absurd (stripped_blank hblank) h
  · exact hcore

theorem withSection_isCore (body : List Char) {added : List Char} (h : IsCore added) : IsCore (withSection body added) := by
  rw [withSection]
  split
  · exact h
  · rename_i hbody
    exact (stripped_isCore hbody).append h ['\n', '\n']

theorem section_isCore {heading content : List Char} (h : sectionText heading content ≠ []) :
    IsCore (sectionText heading content) := stripped_isCore h

/-- What is written for a section that is not empty. -/
theorem appendText_eq {heading content : List Char} (h : sectionText heading content ≠ []) (text : List Char) (w : Write κ ν) :
    appendText y text heading content w = some (storedText y
      (if (splitDocument y text).1.rows ≠ [] then
        renderDocument y (splitDocument y text).1 (withSection (splitDocument y text).2 (sectionText heading content))
      else withSection (splitDocument y text).2 (sectionText heading content)) w) := by
  have hbody : (if rstrip (splitDocument y text).2 ≠ [] then
      stripped (rstrip (splitDocument y text).2 ++ '\n' :: '\n' :: sectionText heading content)
      else sectionText heading content) = withSection (splitDocument y text).2 (sectionText heading content) := by
    rw [withSection]
    by_cases hnil : stripped (splitDocument y text).2 = []
    · rw [if_neg (not_not_intro (rstrip_nil_iff.mpr hnil)), if_pos hnil]
    · rw [if_pos (fun hr => hnil (rstrip_nil_iff.mp hr)), if_neg hnil, stripped_append hnil (section_isCore h)]
  rw [← hbody]
  simp only [appendText, if_neg h]

omit [DecidableEq κ] in
theorem changed_write (w : Write κ ν) : w.edits.changed = true := by
  rw [Edits.changed, Bool.not_eq_true', List.isEmpty_eq_false_iff]
  apply List.ne_nil_of_mem (a := (w.originKey, w.origin))
  simp [Edits.entries, Write.edits]

/-- The lines of a document to which a section was appended, unless its new body is taken for front matter. -/
theorem documentLines_appended {m : Mapping κ ν} {newBody : List Char} (hcore : IsCore newBody)
    (h : m.rows ≠ [] ∨ matchFrontmatter newBody = none) (w : Write κ ν) :
    documentLines y (storedText y (if m.rows ≠ [] then renderDocument y m newBody else newBody) w) = [] :: lines newBody := by
  have hfront : newBody.dropWhile (fun c => decide (c = '\n')) = newBody := by
    obtain ⟨c, rest, rfl, hc⟩ := hcore.first
    apply List.dropWhile_cons_of_neg
    rw [decide_eq_true_eq]
    rintro rfl
    exact absurd hc (by decide)
  have hne : newBody ≠ [] := by
    obtain ⟨c, rest, rfl, -⟩ := hcore.first
    exact List.cons_ne_nil c rest
  have hleft : lstrip newBody = newBody := by
    have hkeep := @lstrip_core [] newBody [] (List.forall_mem_nil _) hcore
    rwa [List.nil_append, List.append_nil] at hkeep
  rw [storedText, documentLines_merge (changed_write w)]
  by_cases hrows : m.rows = []
  · rw [if_neg (not_not_intro hrows), splitDocument_none (h.resolve_left (not_not_intro hrows)), hfront, bodyLines, if_neg hne]
  · have hblock := @frontMatter_render κ ν _ y m hrows newBody
    rw [hfront, bodyLines, if_neg hne] at hblock
    have hsplit := splitDocument_block hblock
    rw [joined_cons [] (lines_ne_nil newBody), joined_lines] at hsplit
    have hnewline : lstrip ([] ++ '\n' :: newBody) = lstrip newBody := List.dropWhile_cons_of_pos (by decide)
    rw [hnewline, hleft] at hsplit
    rw [if_pos hrows, hsplit, hfront, bodyLines, if_neg hne]

/-- A new body that is taken for front matter loses lines. -/
theorem length_matched {newBody : List Char} (h : matchFrontmatter newBody ≠ none) (w : Write κ ν) :
    (documentLines y (storedText y newBody w)).length ≤ newBody.count '\n' := by
  obtain ⟨⟨block, body⟩, hmatch⟩ := Option.ne_none_iff_exists'.mp h
  rw [storedText, documentLines_merge (changed_write w), splitDocument_some hmatch]
  have hbound := length_bodyLines body
  have hcount := count_match hmatch
  show (bodyLines (body.dropWhile fun c => decide (c = '\n'))).length ≤ _
  omega

/-- A document to which a section was appended has at most one line more than its new body. -/
theorem length_appended {m : Mapping κ ν} {newBody : List Char} (hcore : IsCore newBody) (w : Write κ ν) :
    (documentLines y (storedText y (if m.rows ≠ [] then renderDocument y m newBody else newBody) w)).length ≤
      newBody.count '\n' + 2 := by
  by_cases h : m.rows ≠ [] ∨ matchFrontmatter newBody = none
  · rw [documentLines_appended hcore h, List.length_cons, length_lines]
  · rw [not_or] at h
    rw [if_neg h.1]
    exact (length_matched h.2 w).trans (Nat.le_add_right _ 2)

theorem keepsEntries_append {text heading content new : List Char} {w : Write κ ν}
    (h : appendText y text heading content w = some new) : KeepsEntries y (w.edits.entries.map Prod.fst) text new := by
  have hadded : sectionText heading content ≠ [] := by
    intro hnil
    simp [appendText, hnil] at h
  rw [appendText_eq hadded] at h
  obtain rfl := Option.some.inj h
  intro m behind hblock
  rw [splitDocument_block hblock, storedText]
  by_cases hrows : m.rows = []
  · refine ⟨_, _, frontMatter_merge (changed_write w) _, fun key entry hfind _ => ?_⟩
    have hmem := (Table.find?_some hfind).2
    rw [hrows] at hmem
    cases hmem
  · simp only [ne_eq, hrows, not_false_eq_true, if_true]
    exact keepsEntries_merge (changed_write w) _ m _ (frontMatter_render hrows _)

theorem lines_withSection {body : List Char} (h : stripped body ≠ []) (added : List Char) :
    lines (withSection body added) = lines (stripped body) ++ [] :: lines added := by
  rw [withSection, if_neg h, lines_append, lines_newline]

/-- A body that does not begin with a rule is not taken for front matter, whatever is appended. -/
theorem withSection_unmatched {body : List Char} (h : stripped body ≠ [])
    (hrule : ∀ line ∈ (lines (stripped body)).head?, isRule line = false) (added : List Char) :
    matchFrontmatter (withSection body added) = none := by
  by_contra hmatch
  obtain ⟨⟨block, behind⟩, hmatch⟩ := Option.ne_none_iff_exists'.mp hmatch
  obtain ⟨w, after, hw, htext, -⟩ := matchFrontmatter_parts hmatch
  obtain ⟨line, more, hlines, hline⟩ := rule_first_line hw
  have hsame := lines_withSection h added
  rw [htext, ← List.append_assoc, lines_append, hlines] at hsame
  obtain ⟨first, later, hbody⟩ := List.exists_cons_of_ne_nil (lines_ne_nil (stripped body))
  rw [hbody] at hsame hrule
  obtain ⟨rfl, -⟩ := List.cons.inj hsame
  have hnot := hrule line rfl
  rw [hline] at hnot
  cases hnot

/-- A body that begins with a rule is taken for front matter when another rule is appended. -/
theorem withSection_matched {body : List Char} (h : stripped body ≠ [])
    (hrule : ∃ line ∈ (lines (stripped body)).head?, isRule line = true) :
    matchFrontmatter (withSection body ['x', '\n', '-', '-', '-', 'x']) ≠ none := by
  obtain ⟨line, hhead, hline⟩ := hrule
  obtain ⟨first, later, hbody⟩ := List.exists_cons_of_ne_nil (lines_ne_nil (stripped body))
  rw [hbody] at hhead
  obtain rfl : first = line := Option.some.inj hhead
  obtain ⟨-, z, rfl, hz⟩ := isRule_parts hline
  have htext : withSection body ['x', '\n', '-', '-', '-', 'x'] =
      rule ++ (z ++ '\n' :: (joined (later ++ [[], ['x']]) ++ '\n' :: (rule ++ ['x']))) := by
    rw [← joined_lines (withSection body _), lines_withSection h, hbody]
    have hadded : lines ['x', '\n', '-', '-', '-', 'x'] = [['x'], rule ++ ['x']] := by decide
    have hparts : later ++ [] :: [['x'], rule ++ ['x']] = later ++ [[], ['x']] ++ [rule ++ ['x']] := by simp
    rw [hadded, List.cons_append, joined_cons _ (by simp), hparts, joined_append (by simp) (List.cons_ne_nil _ _),
      joined_single, List.append_assoc]
  rw [htext]
  exact matchFrontmatter_ne_none hz _ _

/-- A section behind the lines of a body, as a document should hold it. -/
theorem before_iff {text added : List Char} (h : stripped text ≠ []) {body : List Char} (hbody : stripped body = stripped text) :
    (∃ before, [] :: lines (withSection body added) = before ++ [] :: lines added ∧ (trimmed (lines text)).Sublist before) ↔
      CleanEnds text := by
  rw [← trimmed_iff h, lines_withSection (hbody ▸ h), hbody]
  constructor
  · rintro ⟨before, hlines, hsub⟩
    rw [← List.cons_append] at hlines
    rwa [List.append_cancel_right hlines]
  · intro hsub
    exact ⟨[] :: lines (stripped text), rfl, hsub⟩

theorem exists_appended (y : Yaml κ ν) {heading content : List Char} (h : sectionText heading content ≠ []) (text : List Char)
    (w : Write κ ν) : ∃ new, appendText y text heading content w = some new := ⟨_, appendText_eq h text w⟩

/-- The lines of what is written for a section. -/
theorem appendText_lines {text body heading content new : List Char} {m : Mapping κ ν} {w : Write κ ν}
    (hsplit : splitDocument y text = (m, body)) (h : appendText y text heading content w = some new) :
    (m.rows ≠ [] ∨ matchFrontmatter (withSection body (sectionText heading content)) = none →
      documentLines y new = [] :: lines (withSection body (sectionText heading content))) ∧
    (m.rows = [] → matchFrontmatter (withSection body (sectionText heading content)) ≠ none →
      (documentLines y new).length ≤ (withSection body (sectionText heading content)).count '\n') ∧
    (documentLines y new).length ≤ (withSection body (sectionText heading content)).count '\n' + 2 := by
  have hadded : sectionText heading content ≠ [] := by
    intro hnil
    simp [appendText, hnil] at h
  rw [appendText_eq hadded, hsplit] at h
  obtain rfl := Option.some.inj h
  have hall := withSection_isCore body (section_isCore hadded)
  refine ⟨fun hfound => documentLines_appended hall hfound w, ?_, length_appended hall w⟩
  intro hrows hmatch
  rw [if_neg (not_not_intro hrows)]
  exact length_matched hmatch w

theorem count_withSection {body : List Char} (h : stripped body ≠ []) (added : List Char) :
    (withSection body added).count '\n' = (stripped body).count '\n' + (added.count '\n' + 2) := by
  rw [withSection, if_neg h, List.count_append, List.count_cons_self, List.count_cons_self]

/-- Appending to a document whose body is the text behind its front matter. -/
theorem appendKeeps_body {text behind body : List Char} {m : Mapping κ ν} (hsplit : splitDocument y text = (m, body))
    (hbody : stripped body = stripped behind) (hlines : trimmed (documentLines y text) = trimmed (lines behind)) (w : Write κ ν) :
    AppendKeeps y text w ↔ stripped behind = [] ∨ CleanEnds behind ∧
      (m.rows = [] → ∀ line ∈ (lines (stripped behind)).head?, isRule line = false) := by
  by_cases hcore : stripped behind = []
  · refine iff_of_true ?_ (.inl hcore)
    intro heading content new hnew
    exact ⟨fun h => absurd (hlines.trans (trimmed_blank hcore)) h, keepsEntries_append hnew⟩
  · have htrimmed : trimmed (documentLines y text) ≠ [] := hlines ▸ (trimmed_text hcore).1
    have hnil : stripped body ≠ [] := hbody ▸ hcore
    rw [or_iff_right hcore]
    have hclear : (m.rows = [] → ∀ line ∈ (lines (stripped behind)).head?, isRule line = false) → ∀ added,
        m.rows ≠ [] ∨ matchFrontmatter (withSection body added) = none := by
      intro hrule added
      by_cases hrows : m.rows = []
      · exact .inr (withSection_unmatched hnil (hbody ▸ hrule hrows) added)
      · exact .inl hrows
    constructor
    · intro h
      have hrule : m.rows = [] → ∀ line ∈ (lines (stripped behind)).head?, isRule line = false := by
        intro hrows line hline
        by_contra hisRule
        rw [Bool.not_eq_false] at hisRule
        -- the rule of the section closes what begins with the rule of the body
        have hsection : sectionText [] ['x', '\n', '-', '-', '-', 'x'] = ['x', '\n', '-', '-', '-', 'x'] := by decide
        obtain ⟨new, hwrite⟩ := exists_appended y (hsection ▸ List.cons_ne_nil _ _) text w
        obtain ⟨-, hshort, -⟩ := appendText_lines hsplit hwrite
        obtain ⟨before, hnew, hsub⟩ := (h _ _ _ hwrite).1 htrimmed
        rw [hsection] at hshort hnew
        have hlen := hshort hrows (withSection_matched hnil (hbody ▸ ⟨line, hline, hisRule⟩))
        rw [count_withSection hnil, hnew, hbody, List.length_append, List.length_cons, length_lines] at hlen
        have hmany := (trimmed_text hcore).2.trans (hlines ▸ hsub.length_le)
        omega
      refine ⟨?_, hrule⟩
      have hsection : sectionText ['x'] [] ≠ [] := by decide
      obtain ⟨new, hwrite⟩ := exists_appended y hsection text w
      obtain ⟨before, hnew, hsub⟩ := (h _ _ _ hwrite).1 htrimmed
      rw [(appendText_lines hsplit hwrite).1 (hclear hrule _)] at hnew
      rw [hlines] at hsub
      exact (before_iff hcore hbody).mp ⟨before, hnew, hsub⟩
    · rintro ⟨hclean, hrule⟩ heading content new hwrite
      refine ⟨fun _ => ?_, keepsEntries_append hwrite⟩
      rw [(appendText_lines hsplit hwrite).1 (hclear hrule _), hlines]
      exact (before_iff hcore hbody).mpr hclean

/-- What the expression matches has two line breaks more than its body, also without blanks at the ends. -/
theorem count_stripped {text block body : List Char} (h : matchFrontmatter text = some (block, body)) :
    stripped text ≠ [] ∧ (stripped body).count '\n' + 2 ≤ (stripped text).count '\n' := by
  obtain ⟨w, after, -, htext, rfl⟩ := matchFrontmatter_parts h
  rw [stripped_lstrip]
  have hrule : IsCore rule := ⟨⟨'-', ['-', '-'], rfl, by decide⟩, ⟨['-', '-'], '-', rfl, by decide⟩⟩
  -- the closing rule and what stands behind it without the blanks at its end
  have hends : ∃ front z, after = front ++ z ∧ (∀ c ∈ z, isSpace c = true) ∧ IsCore (rule ++ front) ∧
      (stripped after).count '\n' ≤ front.count '\n' := by
    rcases core_cases after with hblank | ⟨a, z, hafter, ha, hz, hcore⟩
    · exact ⟨[], after, rfl, hblank, hrule, by rw [stripped_blank hblank]⟩
    · refine ⟨a ++ stripped after, z, ?_, hz, hrule.append hcore a, ?_⟩
      · rw [List.append_assoc]
        exact hafter
      · rw [List.count_append]
        exact Nat.le_add_left _ _
  obtain ⟨front, z, hafter, hz, hcore, hcount⟩ := hends
  have hall := hrule.append hcore (w ++ '\n' :: (block ++ ['\n']))
  have hwhole : text = [] ++ (rule ++ (w ++ '\n' :: (block ++ ['\n']) ++ (rule ++ front)) ++ z) := by
    rw [htext, hafter]
    simp
  have hstripped := stripped_core (List.forall_mem_nil _) hz hall
  rw [← hwhole] at hstripped
  rw [hstripped]
  refine ⟨by simp [rule], ?_⟩
  simp only [List.count_append, List.count_cons_self]
  omega

/-- Appending keeps a document exactly in the safe texts. -/
theorem appendKeeps_iff (text : List Char) (w : Write κ ν) : AppendKeeps y text w ↔ AppendSafe y text := by
  rw [AppendSafe]
  cases hblock : frontMatter y (lines text) with
  | some found =>
    obtain ⟨m, behind⟩ := found
    refine appendKeeps_body (splitDocument_block hblock) (stripped_lstrip _) ?_ w
    rw [documentLines_block hblock]
    rcases joined_behind hblock with rfl | hlines
    · rfl
    · rw [hlines]
  | none =>
    cases hmatch : matchFrontmatter text with
    | none =>
      have hbody := appendKeeps_body (splitDocument_none hmatch) rfl (congrArg trimmed (documentLines_none hblock)) w
      simpa [Table.empty] using hbody
    | some found =>
      obtain ⟨block, body⟩ := found
      obtain ⟨hnil, hcount⟩ := count_stripped hmatch
      simp only [hnil, reduceCtorEq, false_and, or_false, iff_false]
      intro h
      have hsection : sectionText ['x'] [] ≠ [] := by decide
      obtain ⟨new, hwrite⟩ := exists_appended y hsection text w
      obtain ⟨-, -, hlen⟩ := appendText_lines (splitDocument_some hmatch) hwrite
      obtain ⟨htrimmed, hmany⟩ := trimmed_text hnil
      rw [← documentLines_none hblock] at htrimmed hmany
      obtain ⟨before, hnew, hsub⟩ := (h _ _ _ hwrite).1 htrimmed
      have hle := hsub.length_le
      rw [hnew, List.length_append, List.length_cons, length_lines] at hlen
      by_cases hbody : stripped body = []
      · rw [withSection, if_pos hbody] at hlen
        omega
      · rw [count_withSection hbody] at hlen
        omega

/-- What editing keeps: an edit and an update of the metadata every line and entry of a safe text,
and an appended section what stands in front of it. -/
theorem edits_keep_iff (y : Yaml κ ν) (text : List Char) (e : Edits κ ν) (w : Write κ ν) :
    (MergeKeeps y text e ↔ e.changed = false ∨ MergeSafe y text) ∧ (UpdateKeeps y text w ↔ MergeSafe y text) ∧
      (AppendKeeps y text w ↔ AppendSafe y text) := by
  refine ⟨mergeKeeps_iff text e, ?_, appendKeeps_iff text w⟩
  have hupdate := mergeKeeps_iff (y := y) text w.edits
  rw [changed_write] at hupdate
  simpa [UpdateKeeps, storedText, MergeKeeps] using hupdate

end

/-! ## Mappings of words -/

def isWord (text : List Char) : Bool := !text.isEmpty && text.all fun c => decide (97 ≤ c.toNat ∧ c.toNat ≤ 122)

/-- A word of small letters. -/
abbrev Word := { text : List Char // isWord text = true }

def entryLine (entry : Word × Word) : List Char := entry.1.1 ++ ':' :: ' ' :: entry.2.1

def readEntry (line : List Char) : Option (Word × Word) :=
  match line.dropWhile fun c => decide (c ≠ ':') with
  | ':' :: ' ' :: value =>
    if hkey : isWord (line.takeWhile fun c => decide (c ≠ ':')) = true then
      if hvalue : isWord value = true then some (⟨_, hkey⟩, ⟨value, hvalue⟩) else none
    else none
  | _ => none

def loadWords (text : List Char) : Option (Mapping Word Word) :=
  ((lines text).mapM readEntry).bind fun entries =>
    if h : (entries.map Prod.fst).Nodup then some ⟨entries, h⟩ else none

def dumpWords (m : Mapping Word Word) : List Char := joined (m.rows.map entryLine) ++ ['\n']

theorem word_letters (w : Word) : ∃ c rest, w.1 = c :: rest ∧ ∀ d ∈ w.1, 97 ≤ d.toNat ∧ d.toNat ≤ 122 := by
  obtain ⟨text, htext⟩ := w
  rw [isWord, Bool.and_eq_true, Bool.not_eq_true', List.isEmpty_eq_false_iff] at htext
  obtain ⟨c, rest, rfl⟩ := List.exists_cons_of_ne_nil htext.1
  exact ⟨c, rest, rfl, fun d hd => by simpa using List.all_eq_true.mp htext.2 d hd⟩

theorem letter_not_space {c : Char} (h : 97 ≤ c.toNat ∧ c.toNat ≤ 122) : isSpace c = false := by
  simp [isSpace]
  omega

theorem letter_ne {c d : Char} (h : 97 ≤ c.toNat ∧ c.toNat ≤ 122) (hd : d.toNat < 97) : c ≠ d := by
  rintro rfl
  omega

theorem readEntry_line (entry : Word × Word) : readEntry (entryLine entry) = some entry := by
  obtain ⟨key, value⟩ := entry
  obtain ⟨-, -, -, hletters⟩ := word_letters key
  have hkey : ∀ c ∈ key.1, decide (c ≠ ':') = true := fun c hc => decide_eq_true (letter_ne (hletters c hc) (by decide))
  have hdrop : (entryLine (key, value)).dropWhile (fun c => decide (c ≠ ':')) = ':' :: ' ' :: value.1 := by
    rw [entryLine, List.dropWhile_append_of_pos hkey, List.dropWhile_cons_of_neg (by decide)]
  have htake : (entryLine (key, value)).takeWhile (fun c => decide (c ≠ ':')) = key.1 := by
    rw [entryLine, List.takeWhile_append_of_pos hkey, List.takeWhile_cons_of_neg (by decide), List.append_nil]
  simp only [readEntry, hdrop, htake, key.2, value.2, dite_true]

theorem readEntries_lines (entries : List (Word × Word)) : (entries.map entryLine).mapM readEntry = some entries := by
  induction entries with
  | nil => rfl
  | cons entry entries ih => rw [List.map_cons, List.mapM_cons, readEntry_line, ih]; rfl

/-- The line of an entry begins and ends with a letter and holds no line break. -/
theorem entryLine_parts (entry : Word × Word) :
    IsCore (entryLine entry) ∧ '\n' ∉ entryLine entry ∧ rule.isPrefixOf (entryLine entry) = false := by
  obtain ⟨key, value⟩ := entry
  obtain ⟨c, rest, hkey, hletters⟩ := word_letters key
  obtain ⟨d, more, hvalue, hvalues⟩ := word_letters value
  have hfirst := hletters c (hkey ▸ List.mem_cons_self)
  refine ⟨⟨⟨c, rest ++ ':' :: ' ' :: value.1, ?_, letter_not_space hfirst⟩, ?_⟩, ?_, ?_⟩
  · rw [entryLine, hkey]
    rfl
  · have hne : value.1 ≠ [] := hvalue ▸ List.cons_ne_nil d more
    refine ⟨key.1 ++ ':' :: ' ' :: value.1.dropLast, value.1.getLast hne, ?_,
      letter_not_space (hvalues _ (List.getLast_mem hne))⟩
    rw [entryLine, List.append_assoc, List.cons_append, List.cons_append, List.dropLast_concat_getLast hne]
  · intro h
    rw [entryLine] at h
    rcases List.mem_append.mp h with h | h
    · exact letter_ne (hletters _ h) (by decide) rfl
    · rcases List.mem_cons.mp h with h | h
      · cases h
      · rcases List.mem_cons.mp h with h | h
        · cases h
        · exact letter_ne (hvalues _ h) (by decide) rfl
  · have hdash : ('-' == c) = false := by
      rw [beq_eq_false_iff_ne]
      exact (letter_ne hfirst (by decide)).symm
    rw [entryLine, hkey, rule, List.cons_append, List.isPrefixOf_cons_cons, hdash, Bool.false_and]

theorem joined_entries {entries : List (Word × Word)} (h : entries ≠ []) : IsCore (joined (entries.map entryLine)) := by
  induction entries with
  | nil => exact absurd rfl h
  | cons entry entries ih =>
    by_cases hnil : entries = []
    · rw [hnil, List.map_cons, List.map_nil, joined_single]
      exact (entryLine_parts entry).1
    · rw [List.map_cons, joined_cons _ (by simpa using hnil)]
      exact (entryLine_parts entry).1.append (ih hnil) ['\n']

theorem stripped_dump {m : Mapping Word Word} (h : m.rows ≠ []) : stripped (dumpWords m) = joined (m.rows.map entryLine) :=
  @stripped_core [] _ ['\n'] (List.forall_mem_nil _) (List.forall_mem_singleton.mpr (by decide)) (joined_entries h)

theorem lines_dump {m : Mapping Word Word} (h : m.rows ≠ []) : lines (stripped (dumpWords m)) = m.rows.map entryLine := by
  rw [stripped_dump h]
  apply lines_joined
  · intro line hline
    obtain ⟨entry, -, rfl⟩ := List.mem_map.mp hline
    exact (entryLine_parts entry).2.1
  · simpa using h

/-- YAML for mappings of words. -/
def wordsYaml : Yaml Word Word where
  load := loadWords
  dump := dumpWords
  load_blank := by
    intro text h
    obtain ⟨first, more, hlines⟩ := List.exists_cons_of_ne_nil (lines_ne_nil text)
    have hfirst : ∀ c ∈ first, isSpace c = true := isBlank_iff.mp (blank_lines h first (hlines ▸ List.mem_cons_self))
    have hnone : readEntry first = none := by
      have hdrop : first.dropWhile (fun c => decide (c ≠ ':')) = [] := by
        rw [List.dropWhile_eq_nil_iff]
        intro c hc
        rw [decide_eq_true_eq]
        rintro rfl
        exact absurd (hfirst ':' hc) (by decide)
      rw [readEntry, hdrop]
    rw [loadWords, hlines, List.mapM_cons, hnone]
    rfl
  load_dump := by
    intro m h
    rw [loadWords, lines_dump h, readEntries_lines, Option.bind_some, dif_pos m.nodup]
  dump_lines := by
    intro m h line hline
    rw [lines_dump h] at hline
    obtain ⟨entry, -, rfl⟩ := List.mem_map.mp hline
    exact (entryLine_parts entry).2.2

def sampleEdits : Edits Word Word where
  titleKey := ⟨"title".toList, by decide +kernel⟩
  tagsKey := ⟨"tags".toList, by decide +kernel⟩
  title := some ⟨"plan".toList, by decide +kernel⟩
  tags := none
  extra := []

theorem merge_loses {y : Yaml Word Word} {text line : List Char} {e : Edits Word Word} (hold : line ∈ documentLines y text)
    (hnew : line ∉ documentLines y (mergeDocument y text e)) : ¬MergeKeeps y text e := fun h => hnew (h.1.subset hold)

/-- A line between two rules is gone when a title is set, and the indent of a line behind front matter too. -/
theorem line_between_rules :
    ("Intro".toList ∈ documentLines wordsYaml "---\nIntro\n---\nText".toList ∧
      "Intro".toList ∉ lines (mergeDocument wordsYaml "---\nIntro\n---\nText".toList sampleEdits) ∧
      ¬MergeKeeps wordsYaml "---\nIntro\n---\nText".toList sampleEdits) ∧
    "    code".toList ∈ documentLines wordsYaml "---\nkind: note\n---\n    code".toList ∧
      "    code".toList ∉ lines (mergeDocument wordsYaml "---\nkind: note\n---\n    code".toList sampleEdits) ∧
      ¬MergeKeeps wordsYaml "---\nkind: note\n---\n    code".toList sampleEdits := by
  have hintro : "Intro".toList ∈ documentLines wordsYaml "---\nIntro\n---\nText".toList := by decide +kernel
  have hcode : "    code".toList ∈ documentLines wordsYaml "---\nkind: note\n---\n    code".toList := by decide +kernel
  exact ⟨⟨hintro, by decide +kernel, merge_loses hintro (by decide +kernel)⟩, hcode, by decide +kernel,
    merge_loses hcode (by decide +kernel)⟩

def sampleWrite : Write Word Word where
  toEdits := sampleEdits
  sourcesKey := ⟨"sources".toList, by decide +kernel⟩
  originKey := ⟨"origin".toList, by decide +kernel⟩
  updatedKey := ⟨"updated".toList, by decide +kernel⟩
  sources := none
  origin := ⟨"admin".toList, by decide +kernel⟩
  now := ⟨"today".toList, by decide +kernel⟩

/-- A rule further down is no front matter: setting a title and updating the metadata keep all lines. -/
theorem rule_below_kept : MergeKeeps wordsYaml "Intro\n---\nText".toList sampleEdits ∧
    UpdateKeeps wordsYaml "Intro\n---\nText".toList sampleWrite := by
  have hblock : frontMatter wordsYaml (lines "Intro\n---\nText".toList) = none :=
    Option.isNone_iff_eq_none.mp (by decide +kernel)
  have hsafe : MergeSafe wordsYaml "Intro\n---\nText".toList := by
    rw [MergeSafe, hblock]
    exact ⟨by decide +kernel, .inl (by decide +kernel)⟩
  have hkeep := edits_keep_iff wordsYaml "Intro\n---\nText".toList sampleEdits sampleWrite
  exact ⟨hkeep.1.mpr (.inr hsafe), hkeep.2.1.mpr hsafe⟩

end FrontMatter
