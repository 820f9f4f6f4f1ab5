import TandemAgents.EventLog
import TandemAgents.FrontMatter

/-!
# The chunks a document is searched by

A body is cut into sections at its headings, a section into paragraphs at its blank lines, and
paragraphs are packed into chunks as long as they fit. Compared line by line, stripped: the
chunks hold the lines that are no headings, in order, each under the nearest heading above it.
A heading is on a chunk only if text stands under it.
-/
namespace Chunks

open PythonText TextLines FrontMatter
open EventLog (splitlines isBoundary universalNewlines)

set_option maxRecDepth 20000

/-! ## Sections -/

/-- `HEADING_PATTERN.match(line)`: its group, for a line without line breaks. -/
def headingMatch (line : List Char) : Option (List Char) :=
  let marks := line.takeWhile (· = '#')
  let rest := line.drop marks.length
  if 1 ≤ marks.length ∧ marks.length ≤ 6 ∧ (rest.head?.any isSpace) then some (rest.dropWhile isSpace) else none

/-- A heading and the lines below it. -/
abbrev Section := List Char × List (List Char)

/-- `flush`. -/
def flush (heading : List Char) (current : List (List Char)) : List Section :=
  if stripped (joined current) ≠ [] ∨ heading ≠ [] then [(heading, current)] else []

/-- The loop over the lines, with the heading and the lines since. -/
def sectionsFrom (heading : List Char) (current : List (List Char)) : List (List Char) → List Section
  | [] => flush heading current
  | line :: rest =>
    match headingMatch line with
    | some text => flush heading current ++ sectionsFrom (stripped text) [] rest
    | none => sectionsFrom heading (current ++ [line]) rest

def sections (texts : List (List Char)) : List Section :=
  if sectionsFrom [] [] texts = [] then [([], texts)] else sectionsFrom [] [] texts

/-! ## Paragraphs -/

/-- `\s*\n` behind a line break: the text behind the longest match. -/
def blankRun (rest : List Char) : Option (List Char) :=
  let blanks := rest.takeWhile isSpace
  if '\n' ∈ blanks then some ((blanks.reverse.takeWhile (· ≠ '\n')).reverse ++ rest.dropWhile isSpace) else none

/-- `re.split(r"\n\s*\n", text)`, with the piece read so far; the number bounds the characters left. -/
def splitBlank : Nat → List Char → List Char → List (List Char)
  | 0, piece, rest => [piece ++ rest]
  | _ + 1, piece, [] => [piece]
  | n + 1, piece, c :: rest =>
    if c = '\n' then
      match blankRun rest with
      | some behind => piece :: splitBlank n [] behind
      | none => splitBlank n (piece ++ [c]) rest
    else splitBlank n (piece ++ [c]) rest

/-- The paragraphs of a section's text. -/
def paragraphs (text : List Char) : List (List Char) :=
  let parts := ((splitBlank text.length [] text).map stripped).filter fun part => decide (part ≠ [])
  if parts = [] then [text] else parts

/-! ## Packing -/

def blankLine : List Char := ['\n', '\n']

/-- `"\n\n".join(buffer).strip()`. -/
def content (buffer : List (List Char)) : List Char := stripped (blankLine.intercalate buffer)

/-- The loop over the paragraphs, with the buffer and its length. -/
def pack (maxChars : Int) : List (List Char) → Int → List (List Char) → List (List Char)
  | buffer, _, [] => if buffer = [] then [] else [content buffer]
  | buffer, bufferLen, paragraph :: rest =>
    if buffer ≠ [] ∧ bufferLen + paragraph.length + 2 > maxChars then
      content buffer :: pack maxChars [paragraph] paragraph.length rest
    else pack maxChars (buffer ++ [paragraph]) (bufferLen + paragraph.length + 2) rest

/-- A heading and a text under it. -/
abbrev Chunk := List Char × List Char

/-- The chunks of a section. -/
def sectionChunks (maxChars : Int) (s : Section) : List Chunk :=
  let text := stripped (joined s.2)
  if text = [] then [] else (pack maxChars [] 0 (paragraphs text)).map fun c => (s.1, c)

/-- `split_chunks`. -/
def splitChunks (bodyText : List Char) (maxChars : Int) : List Chunk :=
  let chunks := (sections (splitlines bodyText)).flatMap (sectionChunks maxChars)
  if chunks = [] then (if stripped bodyText = [] then [] else [([], stripped bodyText)]) else chunks

/-! ## What is asked of them -/

/-- The lines of a text that are not blank, stripped. -/
def words (text : List Char) : List (List Char) := ((lines text).map stripped).filter fun line => decide (line ≠ [])

/-- The texts of the headings. -/
def headingTexts (texts : List (List Char)) : List (List Char) := (texts.filterMap headingMatch).map stripped

/-- The lines that are neither headings nor blank, each with the nearest heading above it. -/
def labelled (heading : List Char) : List (List Char) → List (List Char × List Char)
  | [] => []
  | line :: rest =>
    match headingMatch line with
    | some text => labelled (stripped text) rest
    | none => (if stripped line = [] then [] else [(heading, stripped line)]) ++ labelled heading rest

/-- What the chunks hold, line by line. -/
def chunkLines (chunks : List Chunk) : List (List Char × List Char) := chunks.flatMap fun c => (words c.2).map fun line => (c.1, line)

/-- No line of the text is blank. -/
def IsParagraph (text : List Char) : Prop := ∀ line ∈ lines text, isBlank line = false

/-- Every line is searchable: the headings as headings of chunks, the other lines under the nearest
heading, in order and once; and only a single paragraph is longer than the bound. -/
structure Searchable (bodyText : List Char) (maxChars : Int) : Prop where
  headings : ∀ heading ∈ headingTexts (splitlines bodyText), ∃ c ∈ splitChunks bodyText maxChars, c.1 = heading
  lines : chunkLines (splitChunks bodyText maxChars) = labelled [] (splitlines bodyText)
  long : ∀ c ∈ splitChunks bodyText maxChars, maxChars < c.2.length → IsParagraph c.2

/-- Under every heading, or another one with its text, there is text. -/
def HeadingsUsed (texts : List (List Char)) : Prop := ∀ heading ∈ headingTexts texts, ∃ line, (heading, line) ∈ labelled [] texts

/-! ## The lines of a text that are not blank -/

theorem isBlank_stripped {line : List Char} : isBlank line = true ↔ stripped line = [] := by
  rw [isBlank_iff, stripped_nil_iff]

theorem words_append (a b : List Char) : words (a ++ '\n' :: b) = words a ++ words b := by
  rw [words, lines_append, List.map_append, List.filter_append]
  rfl

theorem words_blank {text : List Char} (h : ∀ c ∈ text, isSpace c = true) : words text = [] := by
  apply List.filter_eq_nil_iff.mpr
  intro line hline
  obtain ⟨raw, hraw, rfl⟩ := List.mem_map.mp hline
  have hblank := isBlank_stripped.mp (blank_lines h raw hraw)
  simp [hblank]

theorem words_nil : words [] = [] := words_blank (List.forall_mem_nil _)

theorem stripped_cons {c : Char} (hc : isSpace c = true) (line : List Char) : stripped (c :: line) = stripped line := by
  rw [stripped, lstrip, List.dropWhile_cons_of_pos hc]
  rfl

theorem stripped_snoc {c : Char} (hc : isSpace c = true) (line : List Char) : stripped (line ++ [c]) = stripped line := by
  rcases core_cases line with hblank | ⟨a, z, hline, ha, hz, hcore⟩
  · rw [stripped_blank hblank, stripped_blank]
    intro d hd
    rcases List.mem_append.mp hd with hd | hd
    · exact hblank d hd
    · exact List.mem_singleton.mp hd ▸ hc
  · have hz' : ∀ d ∈ z ++ [c], isSpace d = true := by
      intro d hd
      rcases List.mem_append.mp hd with hd | hd
      · exact hz d hd
      · exact List.mem_singleton.mp hd ▸ hc
    conv_lhs => rw [hline]
    rw [List.append_assoc, List.append_assoc, stripped_core ha hz' hcore]

theorem words_cons {c : Char} (hc : isSpace c = true) (text : List Char) : words (c :: text) = words text := by
  by_cases hnew : c = '\n'
  · rw [hnew, ← List.nil_append ('\n' :: text), words_append, words_nil, List.nil_append]
  · obtain ⟨first, more, hsplit⟩ := List.exists_cons_of_ne_nil (lines_ne_nil text)
    have hlines : lines (c :: text) = (c :: first) :: more := by
      rw [lines] at hsplit ⊢
      rw [List.splitOn_cons_eq_if_modifyHead, hsplit, if_neg (by simpa using hnew), List.modifyHead_cons]
    rw [words, words, hlines, hsplit, List.map_cons, List.map_cons, stripped_cons hc]

/-- A character that is no line break goes to the last line. -/
theorem lines_snoc {c : Char} (hc : c ≠ '\n') (text : List Char) :
    ∃ front last, lines text = front ++ [last] ∧ lines (text ++ [c]) = front ++ [last ++ [c]] := by
  induction text with
  | nil =>
    refine ⟨[], [], rfl, ?_⟩
    have hline : '\n' ∉ [c] := fun h => hc (List.mem_singleton.mp h).symm
    exact lines_single hline
  | cons d text ih =>
    obtain ⟨front, last, htext, hmore⟩ := ih
    rw [lines] at htext hmore
    rw [List.cons_append, lines, lines, List.splitOn_cons_eq_if_modifyHead, List.splitOn_cons_eq_if_modifyHead, htext, hmore]
    by_cases hd : d = '\n'
    · exact ⟨[] :: front, last, by simp [hd], by simp [hd]⟩
    · cases front with
      | nil => exact ⟨[], d :: last, by simp [hd], by simp [hd]⟩
      | cons first front => exact ⟨(d :: first) :: front, last, by simp [hd], by simp [hd]⟩

theorem words_snoc {c : Char} (hc : isSpace c = true) (text : List Char) : words (text ++ [c]) = words text := by
  by_cases hnew : c = '\n'
  · rw [hnew, words_append, words_nil, List.append_nil]
  · obtain ⟨front, last, htext, hmore⟩ := lines_snoc hnew text
    rw [words, words, hmore, htext, List.map_append, List.map_append, List.map_singleton, List.map_singleton, stripped_snoc hc]

theorem words_front {blanks : List Char} (h : ∀ c ∈ blanks, isSpace c = true) (text : List Char) :
    words (blanks ++ text) = words text := by
  induction blanks with
  | nil => rfl
  | cons c blanks ih =>
    rw [List.cons_append, words_cons (h c List.mem_cons_self), ih fun d hd => h d (List.mem_cons_of_mem c hd)]

theorem words_back {blanks : List Char} (h : ∀ c ∈ blanks, isSpace c = true) (text : List Char) :
    words (text ++ blanks) = words text := by
  induction blanks generalizing text with
  | nil => rw [List.append_nil]
  | cons c blanks ih =>
    rw [List.append_cons, ih fun d hd => h d (List.mem_cons_of_mem c hd), words_snoc (h c List.mem_cons_self)]

theorem words_stripped (text : List Char) : words (stripped text) = words text := by
  rcases core_cases text with hblank | ⟨a, z, htext, ha, hz, -⟩
  · rw [stripped_blank hblank, words_blank hblank, words_nil]
  · conv_rhs => rw [htext]
    rw [words_front ha, words_back hz]

/-- A text that is not blank has a line that is not. -/
theorem words_ne_nil {text : List Char} (h : stripped text ≠ []) : words text ≠ [] := by
  rcases core_cases text with hblank | ⟨a, z, -, -, -, hcore⟩
  · exact absurd (stripped_blank hblank) h
  · rw [← words_stripped]
    obtain ⟨c, rest, hrest, hc⟩ := hcore.first
    have hnew : c ≠ '\n' := by
      rintro rfl
      exact absurd hc (by decide)
    obtain ⟨line, more, hlines⟩ := lines_char hnew rest
    have hline : stripped (c :: line) ≠ [] := by
      intro hnil
      have hspace := stripped_nil_iff.mp hnil c List.mem_cons_self
      rw [hc] at hspace
      cases hspace
    rw [words, hrest, hlines, List.map_cons, List.filter_cons_of_pos (by simpa using hline)]
    exact List.cons_ne_nil _ _

theorem words_joined {texts : List (List Char)} (h : ∀ line ∈ texts, '\n' ∉ line) :
    words (joined texts) = (texts.map stripped).filter fun line => decide (line ≠ []) := by
  cases texts with
  | nil => exact words_nil
  | cons line texts => rw [words, lines_joined h (List.cons_ne_nil line texts)]

/-! ## Cutting at the blank lines -/

/-- A list up to its last line break. -/
theorem to_last_newline {text : List Char} (h : '\n' ∈ text) :
    ∃ front, text = front ++ '\n' :: (text.reverse.takeWhile (· ≠ '\n')).reverse := by
  cases hdrop : text.reverse.dropWhile (· ≠ '\n') with
  | nil =>
    have hall := List.dropWhile_eq_nil_iff.mp hdrop '\n' (List.mem_reverse.mpr h)
    simp at hall
  | cons d more =>
    have hd : d = '\n' := by
      have hnot := List.head?_dropWhile_not (· ≠ '\n') text.reverse
      rw [hdrop] at hnot
      simpa using hnot
    have hsplit := List.takeWhile_append_dropWhile (p := fun c => decide (c ≠ '\n')) (l := text.reverse)
    rw [hdrop, hd] at hsplit
    refine ⟨more.reverse, ?_⟩
    have hreverse := congrArg List.reverse hsplit
    rw [List.reverse_reverse, List.reverse_append, List.reverse_cons, List.append_assoc, List.singleton_append] at hreverse
    exact hreverse.symm

theorem blankRun_some {rest behind : List Char} (h : blankRun rest = some behind) :
    ∃ blanks, rest = blanks ++ '\n' :: behind ∧ ∀ c ∈ blanks, isSpace c = true := by
  rw [blankRun] at h
  split at h
  · rename_i hmem
    obtain ⟨front, hfront⟩ := to_last_newline hmem
    refine ⟨front, ?_, ?_⟩
    · rw [← Option.some.inj h, ← List.cons_append, ← List.append_assoc, ← hfront, List.takeWhile_append_dropWhile]
    · intro c hc
      apply @List.mem_takeWhile_imp _ isSpace rest
      rw [hfront]
      exact List.mem_append_left _ hc
  · cases h

theorem words_splitBlank (n : Nat) (piece rest : List Char) : (splitBlank n piece rest).flatMap words = words (piece ++ rest) := by
  induction n generalizing piece rest with
  | zero => rw [splitBlank, List.flatMap_singleton]
  | succ n ih =>
    cases rest with
    | nil => rw [splitBlank, List.flatMap_singleton, List.append_nil]
    | cons c rest =>
      rw [splitBlank]
      split
      · rename_i hc
        cases hrun : blankRun rest with
        | none => simp only [ih, List.append_assoc, List.singleton_append]
        | some behind =>
          obtain ⟨blanks, hrest, hblanks⟩ := blankRun_some hrun
          simp only [List.flatMap_cons, ih, List.nil_append]
          rw [hc, hrest, words_append, words_append, words_blank hblanks, List.nil_append]
      · rw [ih, List.append_assoc, List.singleton_append]

/-- The text holds no two line breaks with nothing but blanks between them. -/
def Clean (text : List Char) : Prop :=
  ∀ a blanks b, text = a ++ '\n' :: (blanks ++ '\n' :: b) → ¬ ∀ c ∈ blanks, isSpace c = true

/-- Two line breaks with nothing but blanks between them do not start in the piece read so far. -/
def NoneStarts (piece rest : List Char) : Prop :=
  ∀ a blanks b, piece ++ rest = a ++ '\n' :: (blanks ++ '\n' :: b) → (∀ c ∈ blanks, isSpace c = true) → piece.length ≤ a.length

theorem NoneStarts.clean {piece rest : List Char} (h : NoneStarts piece rest) : Clean piece := by
  rintro a blanks b rfl hblanks
  have hle := h a blanks (b ++ rest) (by simp) hblanks
  simp only [List.length_append, List.length_cons] at hle
  omega

/-- One character more: none starts at it. -/
theorem NoneStarts.snoc {piece rest : List Char} {c : Char} (h : NoneStarts piece (c :: rest))
    (hc : c = '\n' → blankRun rest = none) : NoneStarts (piece ++ [c]) rest := by
  intro a blanks b heq hblanks
  rw [List.append_assoc, List.singleton_append] at heq
  have hle := h a blanks b heq hblanks
  have hne : piece.length ≠ a.length := by
    intro hlen
    obtain ⟨-, hrest⟩ := List.append_inj heq hlen
    obtain ⟨hnew, rfl⟩ := List.cons.inj hrest
    have hmem : '\n' ∈ (blanks ++ '\n' :: b).takeWhile isSpace := by
      rw [List.takeWhile_append_of_pos hblanks, List.takeWhile_cons_of_pos (by decide)]
      exact List.mem_append_right blanks List.mem_cons_self
    have hnone := hc hnew
    rw [blankRun, if_pos hmem] at hnone
    cases hnone
  rw [List.length_append, List.length_singleton]
  omega

/-- No piece holds a blank line inside. -/
theorem splitBlank_clean {n : Nat} {piece rest : List Char} (hn : rest.length ≤ n) (h : NoneStarts piece rest) :
    ∀ part ∈ splitBlank n piece rest, Clean part := by
  induction n generalizing piece rest with
  | zero =>
    obtain rfl := List.length_eq_zero_iff.mp (Nat.le_zero.mp hn)
    intro part hpart
    rw [splitBlank, List.append_nil] at hpart
    exact List.mem_singleton.mp hpart ▸ h.clean
  | succ n ih =>
    cases rest with
    | nil =>
      intro part hpart
      exact List.mem_singleton.mp hpart ▸ h.clean
    | cons c rest =>
      have hlen : rest.length ≤ n := by
        rw [List.length_cons] at hn
        omega
      rw [splitBlank]
      split
      · cases hrun : blankRun rest with
        | none => exact ih hlen (h.snoc fun _ => hrun)
        | some behind =>
          obtain ⟨blanks, hrest, -⟩ := blankRun_some hrun
          have hbehind : behind.length ≤ n := by
            have hlength := congrArg List.length hrest
            simp at hlength
            omega
          intro part hpart
          rcases List.mem_cons.mp hpart with rfl | hpart
          · exact h.clean
          · have hnone : NoneStarts [] behind := fun a blanks b _ _ => Nat.zero_le a.length
            exact ih hbehind hnone part hpart
      · rename_i hc
        exact ih hlen (h.snoc fun hnew => absurd hnew hc)

theorem Clean.stripped {text : List Char} (h : Clean text) : Clean (stripped text) := by
  rcases core_cases text with hblank | ⟨a, z, htext, -, -, -⟩
  · rw [stripped_blank hblank]
    intro a blanks b heq
    simp at heq
  · intro front blanks back heq
    apply h (a ++ front) blanks (back ++ z)
    conv_lhs => rw [htext]
    rw [heq]
    simp

/-- A text without blanks at its ends and without blank lines inside has none at all. -/
theorem paragraph_of_clean {text : List Char} (hcore : IsCore text) (hclean : Clean text) : IsParagraph text := by
  intro line hline
  by_contra hblank
  have hspace : ∀ c ∈ line, isSpace c = true := isBlank_iff.mp (by simpa using hblank)
  obtain ⟨front, back, hlines⟩ := List.append_of_mem hline
  have htext : text = joined (front ++ line :: back) := by rw [← hlines, joined_lines]
  have hnew : isSpace '\n' = true := by decide
  cases front with
  | nil =>
    -- the first line begins as the text does
    obtain ⟨c, rest, hfirst, hc⟩ := hcore.first
    have hne : c ≠ '\n' := by
      rintro rfl
      rw [hnew] at hc
      cases hc
    obtain ⟨more, later, hmore⟩ := lines_char hne rest
    rw [hfirst, hmore] at hlines
    obtain ⟨rfl, -⟩ := List.cons.inj hlines
    rw [hspace c List.mem_cons_self] at hc
    cases hc
  | cons first front =>
    cases back with
    | nil =>
      -- the last line ends as the text does
      obtain ⟨init, d, hlast, hd⟩ := hcore.last
      have hne : d ≠ '\n' := by
        rintro rfl
        rw [hnew] at hd
        cases hd
      obtain ⟨earlier, last, -, hmore⟩ := lines_snoc hne init
      rw [hlast, hmore] at hlines
      obtain ⟨-, hsame⟩ := List.append_inj' hlines rfl
      obtain ⟨rfl, -⟩ := List.cons.inj hsame
      rw [hspace d (by simp)] at hd
      cases hd
    | cons next back =>
      rw [@joined_append (first :: front) (line :: next :: back) (by simp) (by simp), joined_cons line (by simp)] at htext
      exact hclean _ line _ htext hspace

theorem isCore_stripped {text : List Char} (h : stripped text ≠ []) : IsCore (stripped text) := by
  rcases core_cases text with hblank | ⟨a, z, -, -, -, hcore⟩
  · exact absurd (stripped_blank hblank) h
  · exact hcore

theorem stripped_of_core {text : List Char} (h : IsCore text) : stripped text = text := by
  have hall := @stripped_core [] text [] (List.forall_mem_nil _) (List.forall_mem_nil _) h
  rwa [List.append_nil] at hall

theorem flatMap_words_parts (parts : List (List Char)) :
    ((parts.map stripped).filter fun part => decide (part ≠ [])).flatMap words = parts.flatMap words := by
  induction parts with
  | nil => rfl
  | cons part parts ih =>
    by_cases hpart : stripped part = []
    · rw [List.map_cons, List.filter_cons_of_neg (by simp [hpart]), ih, List.flatMap_cons, ← words_stripped, hpart, words_nil,
        List.nil_append]
    · rw [List.map_cons, List.filter_cons_of_pos (by simpa using hpart), List.flatMap_cons, List.flatMap_cons, ih, words_stripped]

theorem paragraphs_words (text : List Char) : (paragraphs text).flatMap words = words text := by
  have hparts := flatMap_words_parts (splitBlank text.length [] text)
  rw [words_splitBlank, List.nil_append] at hparts
  rw [paragraphs]
  split
  · exact List.flatMap_singleton words text
  · exact hparts

/-- The paragraphs of a text that is not blank. -/
theorem paragraphs_core {text : List Char} (h : stripped text ≠ []) : ∀ p ∈ paragraphs text, IsCore p ∧ IsParagraph p := by
  have hparts := flatMap_words_parts (splitBlank text.length [] text)
  rw [words_splitBlank, List.nil_append] at hparts
  rw [paragraphs]
  split
  · rename_i hnil
    rw [hnil] at hparts
    exact absurd hparts.symm (words_ne_nil h)
  · intro p hp
    obtain ⟨hp, hne⟩ := List.mem_filter.mp hp
    obtain ⟨part, hpart, rfl⟩ := List.mem_map.mp hp
    have hnone : NoneStarts [] text := fun a blanks b _ _ => Nat.zero_le a.length
    have hcore : IsCore (stripped part) := isCore_stripped (of_decide_eq_true hne)
    exact ⟨hcore, paragraph_of_clean hcore (splitBlank_clean (Nat.le_refl _) hnone part hpart).stripped⟩

/-! ## Packing -/

theorem words_intercalate (buffer : List (List Char)) : words (blankLine.intercalate buffer) = buffer.flatMap words := by
  induction buffer with
  | nil => exact words_nil
  | cons p buffer ih =>
    cases buffer with
    | nil => rw [List.intercalate_singleton, List.flatMap_singleton]
    | cons q buffer =>
      rw [List.intercalate_cons_cons, blankLine, List.append_assoc, List.cons_append, List.cons_append, List.nil_append,
        words_append, words_cons (by decide), ← blankLine, ih]
      rfl

theorem words_content (buffer : List (List Char)) : words (content buffer) = buffer.flatMap words := by
  rw [content, words_stripped, words_intercalate]

/-- The chunks hold the paragraphs. -/
theorem words_pack (maxChars : Int) (buffer : List (List Char)) (bufferLen : Int) (rest : List (List Char)) :
    (pack maxChars buffer bufferLen rest).flatMap words = (buffer ++ rest).flatMap words := by
  induction rest generalizing buffer bufferLen with
  | nil =>
    rw [pack, List.append_nil]
    split
    · rename_i hnil
      rw [hnil]
    · rw [List.flatMap_singleton, words_content]
  | cons p rest ih =>
    rw [pack]
    split
    · rw [List.flatMap_cons, ih, words_content, ← List.flatMap_append]
      rfl
    · rw [ih, List.append_assoc, List.singleton_append]

def joinedLength (buffer : List (List Char)) : Int := (blankLine.intercalate buffer).length

theorem joinedLength_snoc {buffer : List (List Char)} (h : buffer ≠ []) (p : List Char) :
    joinedLength (buffer ++ [p]) = joinedLength buffer + p.length + 2 := by
  induction buffer with
  | nil => exact absurd rfl h
  | cons q buffer ih =>
    cases buffer with
    | nil =>
      simp [joinedLength, blankLine, List.intercalate_cons_cons]
      omega
    | cons r buffer =>
      have hmore := ih (List.cons_ne_nil r buffer)
      simp only [joinedLength, List.cons_append, List.intercalate_cons_cons, List.length_append, blankLine, List.length_cons,
        List.length_nil] at hmore ⊢
      omega

/-- What the length counted says of a buffer: it is no less than the text's, which fits unless it is
one paragraph. -/
def Counted (maxChars : Int) (buffer : List (List Char)) (bufferLen : Int) : Prop :=
  buffer = [] ∧ bufferLen = 0 ∨
    buffer ≠ [] ∧ joinedLength buffer ≤ bufferLen ∧ ((∃ p, buffer = [p]) ∨ joinedLength buffer ≤ maxChars)

theorem Counted.snoc {maxChars bufferLen : Int} {buffer : List (List Char)} {p : List Char} (h : Counted maxChars buffer bufferLen)
    (hfits : ¬ (buffer ≠ [] ∧ bufferLen + p.length + 2 > maxChars)) :
    Counted maxChars (buffer ++ [p]) (bufferLen + p.length + 2) := by
  right
  refine ⟨by simp, ?_⟩
  rcases h with ⟨rfl, rfl⟩ | ⟨hne, hle, -⟩
  · refine ⟨?_, .inl ⟨p, rfl⟩⟩
    simp only [List.nil_append, joinedLength, List.intercalate_singleton]
    omega
  · have hmax : bufferLen + p.length + 2 ≤ maxChars := by
      by_contra hover
      exact hfits ⟨hne, by omega⟩
    rw [joinedLength_snoc hne]
    exact ⟨by omega, .inr (by omega)⟩

theorem Counted.single (maxChars : Int) (p : List Char) : Counted maxChars [p] p.length :=
  .inr ⟨List.cons_ne_nil p [], by simp [joinedLength], .inl ⟨p, rfl⟩⟩

theorem length_stripped_le (text : List Char) : (stripped text).length ≤ text.length := by
  rcases core_cases text with hblank | ⟨a, z, htext, -, -, -⟩
  · rw [stripped_blank hblank]
    exact Nat.zero_le _
  · have hlength := congrArg List.length htext
    simp only [List.length_append] at hlength
    omega

/-- A chunk is packed from some of the paragraphs, and from one only if it is too long. -/
theorem mem_pack {maxChars bufferLen : Int} {buffer rest : List (List Char)} (h : Counted maxChars buffer bufferLen) :
    ∀ c ∈ pack maxChars buffer bufferLen rest, ∃ used, used ≠ [] ∧ (∀ p ∈ used, p ∈ buffer ++ rest) ∧ c = content used ∧
      (maxChars < c.length → ∃ p, used = [p]) := by
  have hbuffer : ∀ {buffer : List (List Char)} {bufferLen : Int}, Counted maxChars buffer bufferLen → buffer ≠ [] →
      maxChars < (content buffer).length → ∃ p, buffer = [p] := by
    rintro buffer bufferLen (⟨hnil, -⟩ | ⟨-, -, hsingle | hfits⟩) hne hlong
    · exact absurd hnil hne
    · exact hsingle
    · have hle := length_stripped_le (blankLine.intercalate buffer)
      simp only [content, joinedLength] at hlong hfits
      omega
  induction rest generalizing buffer bufferLen with
  | nil =>
    intro c hc
    rw [pack] at hc
    split at hc
    · cases hc
    · rename_i hne
      obtain rfl := List.mem_singleton.mp hc
      exact ⟨buffer, hne, fun p hp => List.mem_append_left [] hp, rfl, hbuffer h hne⟩
  | cons p rest ih =>
    intro c hc
    rw [pack] at hc
    split at hc
    · rename_i hover
      rcases List.mem_cons.mp hc with rfl | hc
      · exact ⟨buffer, hover.1, fun q hq => List.mem_append_left _ hq, rfl, hbuffer h hover.1⟩
      · obtain ⟨used, hne, hused, rest⟩ := ih (Counted.single maxChars p) c hc
        exact ⟨used, hne, fun q hq => List.mem_append_right buffer (hused q hq), rest⟩
    · rename_i hfits
      obtain ⟨used, hne, hused, rest⟩ := ih (h.snoc hfits) c hc
      refine ⟨used, hne, fun q hq => ?_, rest⟩
      have hmem := hused q hq
      rwa [List.append_assoc, List.singleton_append] at hmem

/-! ## From the lines to the chunks -/

/-- The lines of a section, stripped and without the blank ones, each with the section's heading. -/
def sectionLines (s : Section) : List (List Char × List Char) :=
  ((s.2.map stripped).filter fun line => decide (line ≠ [])).map fun line => (s.1, line)

theorem chunkLines_append (a b : List Chunk) : chunkLines (a ++ b) = chunkLines a ++ chunkLines b := List.flatMap_append

theorem chunkLines_map (heading : List Char) (texts : List (List Char)) :
    chunkLines (texts.map fun c => (heading, c)) = (texts.flatMap words).map fun line => (heading, line) := by
  rw [chunkLines, List.flatMap_map, List.map_flatMap]

theorem chunkLines_section (maxChars : Int) {s : Section} (h : ∀ line ∈ s.2, '\n' ∉ line) :
    chunkLines (sectionChunks maxChars s) = sectionLines s := by
  rw [sectionLines, ← words_joined h, ← words_stripped, sectionChunks]
  split
  · rename_i hnil
    rw [hnil, words_nil]
    rfl
  · rw [chunkLines_map, words_pack, List.nil_append, paragraphs_words]

theorem sectionLines_flush (heading : List Char) {current : List (List Char)} (h : ∀ line ∈ current, '\n' ∉ line) :
    (flush heading current).flatMap sectionLines = sectionLines (heading, current) := by
  rw [flush]
  split
  · exact List.flatMap_singleton sectionLines _
  · rename_i hnot
    obtain ⟨hblank, -⟩ := not_or.mp hnot
    rw [sectionLines, ← words_joined h, ← words_stripped, not_not.mp hblank, words_nil]
    rfl

/-- The sections hold the lines that are no headings, each under its heading. -/
theorem sectionLines_sectionsFrom (texts : List (List Char)) (h : ∀ line ∈ texts, '\n' ∉ line) (heading : List Char)
    (current : List (List Char)) (hcurrent : ∀ line ∈ current, '\n' ∉ line) :
    (sectionsFrom heading current texts).flatMap sectionLines = sectionLines (heading, current) ++ labelled heading texts := by
  induction texts generalizing heading current with
  | nil => rw [sectionsFrom, sectionLines_flush heading hcurrent, labelled, List.append_nil]
  | cons line texts ih =>
    have hrest : ∀ line ∈ texts, '\n' ∉ line := fun l hl => h l (List.mem_cons_of_mem line hl)
    rw [sectionsFrom, labelled]
    cases headingMatch line with
    | some text =>
      simp only
      rw [List.flatMap_append, sectionLines_flush heading hcurrent, ih hrest (stripped text) [] (List.forall_mem_nil _)]
      rfl
    | none =>
      simp only
      have hnext : ∀ l ∈ current ++ [line], '\n' ∉ l := by
        intro l hl
        rcases List.mem_append.mp hl with hl | hl
        · exact hcurrent l hl
        · exact List.mem_singleton.mp hl ▸ h line List.mem_cons_self
      rw [ih hrest heading (current ++ [line]) hnext, ← List.append_assoc]
      congr 1
      rw [sectionLines, sectionLines, List.map_append, List.filter_append, List.map_append]
      by_cases hline : stripped line = [] <;> simp [hline]

/-- The lines of the sections are lines of the text. -/
theorem sections_all {P : List Char → Prop} {texts : List (List Char)} (h : ∀ line ∈ texts, P line) (heading : List Char)
    {current : List (List Char)} (hcurrent : ∀ line ∈ current, P line) :
    ∀ s ∈ sectionsFrom heading current texts, ∀ line ∈ s.2, P line := by
  have hflush : ∀ heading {current : List (List Char)}, (∀ line ∈ current, P line) →
      ∀ s ∈ flush heading current, ∀ line ∈ s.2, P line := by
    intro heading current hcurrent s hs
    rw [flush] at hs
    split at hs
    · exact List.mem_singleton.mp hs ▸ hcurrent
    · cases hs
  induction texts generalizing heading current with
  | nil => exact hflush heading hcurrent
  | cons line texts ih =>
    have hrest : ∀ line ∈ texts, P line := fun l hl => h l (List.mem_cons_of_mem line hl)
    intro s hs
    rw [sectionsFrom] at hs
    split at hs
    · rcases List.mem_append.mp hs with hs | hs
      · exact hflush heading hcurrent s hs
      · exact ih hrest _ (List.forall_mem_nil _) s hs
    · apply ih hrest heading _ s hs
      intro l hl
      rcases List.mem_append.mp hl with hl | hl
      · exact hcurrent l hl
      · exact List.mem_singleton.mp hl ▸ h line List.mem_cons_self

theorem mem_universalNewlines {c : Char} (hreturn : c ≠ '\r') (hnew : c ≠ '\n') {text : List Char} (hc : c ∈ text)
    (afterReturn : Bool) : c ∈ universalNewlines afterReturn text := by
  induction text generalizing afterReturn with
  | nil => cases hc
  | cons d text ih =>
    rw [universalNewlines]
    rcases List.mem_cons.mp hc with rfl | hc
    · rw [if_neg hreturn, if_neg fun h => hnew h.1]
      exact List.mem_cons_self
    · split
      · exact List.mem_cons_of_mem _ (ih hc true)
      · split
        · exact ih hc false
        · exact List.mem_cons_of_mem _ (ih hc false)

/-- A character that ends no line is on one. -/
theorem mem_line {isEnd : Char → Bool} {c : Char} (hend : isEnd c = false) {text : List Char} (hc : c ∈ text) :
    ∃ line ∈ EventLog.lines isEnd text, c ∈ line.takeWhile fun d => !isEnd d := by
  induction text with
  | nil => cases hc
  | cons d text ih =>
    rw [EventLog.lines]
    rcases List.mem_cons.mp hc with rfl | hc
    · rw [if_neg (by rw [hend]; exact Bool.false_ne_true)]
      split
      · exact ⟨_, List.mem_cons_self, by rw [List.takeWhile_cons_of_pos (by simp [hend])]; exact List.mem_cons_self⟩
      · exact ⟨_, List.mem_cons_self, by rw [List.takeWhile_cons_of_pos (by simp [hend])]; exact List.mem_cons_self⟩
    · obtain ⟨line, hline, hmem⟩ := ih hc
      split
      · exact ⟨line, List.mem_cons_of_mem _ hline, hmem⟩
      · rename_i hd
        split
        · rename_i hnil
          rw [hnil] at hline
          cases hline
        · rename_i first later hlines
          rw [hlines] at hline
          rcases List.mem_cons.mp hline with rfl | hline
          · refine ⟨_, List.mem_cons_self, ?_⟩
            rw [List.takeWhile_cons_of_pos (by simp [hd])]
            exact List.mem_cons_of_mem d hmem
          · exact ⟨line, List.mem_cons_of_mem _ hline, hmem⟩

theorem isSpace_boundary {c : Char} (h : isSpace c = false) : isBoundary c = false := by
  by_contra hnot
  have hbound : isBoundary c = true := by simpa using hnot
  simp only [isBoundary, isSpace, Bool.or_eq_true, Bool.and_eq_true, decide_eq_true_eq, Bool.or_eq_false_iff,
    Bool.and_eq_false_iff, decide_eq_false_iff_not] at h hbound
  omega

theorem splitlines_clean (text : List Char) : ∀ line ∈ splitlines text, '\n' ∉ line := by
  intro line hline hmem
  obtain ⟨raw, -, rfl⟩ := List.mem_map.mp hline
  have hnot := List.mem_takeWhile_imp hmem
  exact absurd hnot (by decide)

/-- A text whose lines are all blank is blank. -/
theorem blank_of_lines {text : List Char} (h : ∀ line ∈ splitlines text, stripped line = []) : stripped text = [] := by
  apply stripped_nil_iff.mpr
  intro c hc
  by_contra hspace
  have hspace : isSpace c = false := by simpa using hspace
  have hreturn : c ≠ '\r' := by
    rintro rfl
    exact absurd hspace (by decide)
  have hnew : c ≠ '\n' := by
    rintro rfl
    exact absurd hspace (by decide)
  obtain ⟨raw, hraw, hmem⟩ := mem_line (isSpace_boundary hspace) (mem_universalNewlines hreturn hnew hc false)
  have hblank := stripped_nil_iff.mp (h _ (List.mem_map.mpr ⟨raw, hraw, rfl⟩)) c hmem
  rw [hspace] at hblank
  cases hblank

theorem labelled_nil {texts : List (List Char)} (hheadings : headingTexts texts = []) {heading : List Char}
    (h : labelled heading texts = []) : ∀ line ∈ texts, stripped line = [] := by
  induction texts with
  | nil => exact List.forall_mem_nil _
  | cons line texts ih =>
    have hno : headingMatch line = none := by
      cases hmatch : headingMatch line with
      | none => rfl
      | some text =>
        rw [headingTexts, List.filterMap_cons, hmatch] at hheadings
        cases hheadings
    have hrest : headingTexts texts = [] := by
      rwa [headingTexts, List.filterMap_cons, hno] at hheadings
    rw [labelled, hno] at h
    obtain ⟨hline, hmore⟩ := List.append_eq_nil_iff.mp h
    intro l hl
    rcases List.mem_cons.mp hl with rfl | hl
    · by_contra hne
      rw [if_neg hne] at hline
      cases hline
    · exact ih hrest hmore l hl

/-! ## What the chunks hold -/

/-- The chunks of the sections. -/
def packed (bodyText : List Char) (maxChars : Int) : List Chunk := (sections (splitlines bodyText)).flatMap (sectionChunks maxChars)

theorem chunkLines_sections {found : List Section} (h : ∀ s ∈ found, ∀ line ∈ s.2, '\n' ∉ line) (maxChars : Int) :
    chunkLines (found.flatMap (sectionChunks maxChars)) = found.flatMap sectionLines := by
  induction found with
  | nil => rfl
  | cons s found ih =>
    rw [List.flatMap_cons, List.flatMap_cons, chunkLines_append, chunkLines_section maxChars (h s List.mem_cons_self),
      ih fun t ht => h t (List.mem_cons_of_mem s ht)]

theorem labelled_sections (bodyText : List Char) :
    (sectionsFrom [] [] (splitlines bodyText)).flatMap sectionLines = labelled [] (splitlines bodyText) :=
  sectionLines_sectionsFrom (splitlines bodyText) (splitlines_clean bodyText) [] [] (List.forall_mem_nil _)

/-- Where a line is neither a heading nor blank, the chunks are those of the sections, and hold just
such lines. -/
theorem splitChunks_of_labelled {bodyText : List Char} (h : labelled [] (splitlines bodyText) ≠ []) (maxChars : Int) :
    splitChunks bodyText maxChars = packed bodyText maxChars ∧
      chunkLines (splitChunks bodyText maxChars) = labelled [] (splitlines bodyText) := by
  have hsections : sectionsFrom [] [] (splitlines bodyText) ≠ [] := by
    intro hnil
    rw [← labelled_sections, hnil] at h
    exact h rfl
  have hlines : chunkLines (packed bodyText maxChars) = labelled [] (splitlines bodyText) := by
    rw [packed, sections, if_neg hsections,
      chunkLines_sections (sections_all (splitlines_clean bodyText) [] (List.forall_mem_nil _)), labelled_sections]
  have hpacked : packed bodyText maxChars ≠ [] := by
    intro hnil
    rw [← hlines, hnil] at h
    exact h rfl
  have hsplit : splitChunks bodyText maxChars = packed bodyText maxChars := if_neg hpacked
  exact ⟨hsplit, by rw [hsplit, hlines]⟩

/-- Where every line is blank there are no chunks. -/
theorem splitChunks_of_blank {bodyText : List Char} (h : ∀ line ∈ splitlines bodyText, stripped line = []) (maxChars : Int) :
    splitChunks bodyText maxChars = [] := by
  have hsection : ∀ s : Section, (∀ line ∈ s.2, stripped line = [] ∧ '\n' ∉ line) → sectionChunks maxChars s = [] := by
    intro s hs
    apply if_pos
    by_contra hne
    apply words_ne_nil hne
    rw [words_joined fun line hline => (hs line hline).2]
    apply List.filter_eq_nil_iff.mpr
    intro line hline
    obtain ⟨raw, hraw, rfl⟩ := List.mem_map.mp hline
    simp [(hs raw hraw).1]
  have hlines : ∀ line ∈ splitlines bodyText, stripped line = [] ∧ '\n' ∉ line :=
    fun line hline => ⟨h line hline, splitlines_clean bodyText line hline⟩
  have hpacked : packed bodyText maxChars = [] := by
    apply List.flatMap_eq_nil_iff.mpr
    intro s hs
    apply hsection
    rw [sections] at hs
    split at hs
    · exact List.mem_singleton.mp hs ▸ hlines
    · exact sections_all hlines [] (List.forall_mem_nil _) s hs
  exact (if_pos hpacked).trans (if_pos (blank_of_lines h))

/-- A chunk of a section is packed from paragraphs, and is one if it is too long. -/
theorem mem_sectionChunks {maxChars : Int} {s : Section} {c : Chunk} (h : c ∈ sectionChunks maxChars s) :
    words c.2 ≠ [] ∧ (maxChars < c.2.length → IsParagraph c.2) := by
  rw [sectionChunks] at h
  split at h
  · cases h
  · rename_i hne
    obtain ⟨text, htext, rfl⟩ := List.mem_map.mp h
    obtain ⟨used, hused, hmem, hcontent, hlong⟩ := mem_pack (.inl ⟨rfl, rfl⟩) text htext
    have hcore : ∀ p ∈ used, IsCore p ∧ IsParagraph p := by
      have hfixed : stripped (stripped (joined s.2)) ≠ [] := by
        rw [stripped_of_core (isCore_stripped hne)]
        exact hne
      exact fun p hp => paragraphs_core hfixed p (hmem p hp)
    constructor
    · rw [hcontent, words_content]
      obtain ⟨p, more, rfl⟩ := List.exists_cons_of_ne_nil hused
      have hp : stripped p ≠ [] := by
        obtain ⟨d, rest, hrest, -⟩ := (hcore p List.mem_cons_self).1.first
        rw [stripped_of_core (hcore p List.mem_cons_self).1, hrest]
        exact List.cons_ne_nil d rest
      rw [List.flatMap_cons]
      exact fun hnil => words_ne_nil hp (List.append_eq_nil_iff.mp hnil).1
    · intro hover
      obtain ⟨p, rfl⟩ := hlong hover
      have hp := hcore p (List.mem_singleton_self p)
      rw [hcontent, content, List.intercalate_singleton, stripped_of_core hp.1]
      exact hp.2

theorem mem_splitChunks {bodyText : List Char} {maxChars : Int} {c : Chunk} (h : c ∈ splitChunks bodyText maxChars) :
    words c.2 ≠ [] := by
  rw [splitChunks] at h
  split at h
  · split at h
    · cases h
    · rename_i hne
      obtain rfl := List.mem_singleton.mp h
      rw [words_stripped]
      exact words_ne_nil hne
  · obtain ⟨s, -, hc⟩ := List.mem_flatMap.mp h
    exact (mem_sectionChunks hc).1

theorem mem_chunkLines {chunks : List Chunk} {heading line : List Char} :
    (heading, line) ∈ chunkLines chunks ↔ ∃ c ∈ chunks, c.1 = heading ∧ line ∈ words c.2 := by
  simp only [chunkLines, List.mem_flatMap, List.mem_map, Prod.mk.injEq]
  constructor
  · rintro ⟨c, hc, found, hfound, hheading, rfl⟩
    exact ⟨c, hc, hheading, hfound⟩
  · rintro ⟨c, hc, hheading, hline⟩
    exact ⟨c, hc, line, hline, hheading, rfl⟩

/-- The whole body is searchable exactly if its headings are used. -/
theorem searchable_iff (bodyText : List Char) (maxChars : Int) :
    Searchable bodyText maxChars ↔ HeadingsUsed (splitlines bodyText) := by
  constructor
  · intro h heading hheading
    obtain ⟨c, hc, rfl⟩ := h.headings heading hheading
    obtain ⟨line, more, hline⟩ := List.exists_cons_of_ne_nil (mem_splitChunks hc)
    have hmem : (c.1, line) ∈ chunkLines (splitChunks bodyText maxChars) :=
      mem_chunkLines.mpr ⟨c, hc, rfl, by rw [hline]; exact List.mem_cons_self⟩
    exact ⟨line, h.lines ▸ hmem⟩
  · intro h
    by_cases hlabelled : labelled [] (splitlines bodyText) = []
    · have hheadings : headingTexts (splitlines bodyText) = [] := by
        apply List.eq_nil_iff_forall_not_mem.mpr
        intro heading hheading
        obtain ⟨line, hline⟩ := h heading hheading
        rw [hlabelled] at hline
        cases hline
      have hnone := splitChunks_of_blank (labelled_nil hheadings hlabelled) maxChars
      constructor
      · rw [hheadings]
        exact List.forall_mem_nil _
      · rw [hnone, hlabelled]
        rfl
      · rw [hnone]
        exact List.forall_mem_nil _
    · obtain ⟨hsplit, hlines⟩ := splitChunks_of_labelled hlabelled maxChars
      constructor
      · intro heading hheading
        obtain ⟨line, hline⟩ := h heading hheading
        rw [← hlines] at hline
        obtain ⟨c, hc, hsame, -⟩ := mem_chunkLines.mp hline
        exact ⟨c, hc, hsame⟩
      · exact hlines
      · intro c hc
        rw [hsplit] at hc
        obtain ⟨s, -, hc⟩ := List.mem_flatMap.mp hc
        exact (mem_sectionChunks hc).2

/-- A heading above another heading is on no chunk. -/
theorem bare_heading :
    splitChunks "# Setup\n# Usage\nRun it.".toList 1200 = [("Usage".toList, "Run it.".toList)] ∧
    ¬ Searchable "# Setup\n# Usage\nRun it.".toList 1200 := by
  have hchunks : splitChunks "# Setup\n# Usage\nRun it.".toList 1200 = [("Usage".toList, "Run it.".toList)] := by
    decide +kernel
  refine ⟨hchunks, fun h => ?_⟩
  have hheading : "Setup".toList ∈ headingTexts (splitlines "# Setup\n# Usage\nRun it.".toList) := by
    decide +kernel
  obtain ⟨c, hc, hsame⟩ := h.headings _ hheading
  rw [hchunks] at hc
  rw [List.mem_singleton.mp hc] at hsame
  exact absurd hsame (by decide)

end Chunks
