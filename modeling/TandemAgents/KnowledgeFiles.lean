import TandemAgents.KnowledgeText
import Mathlib.Data.List.Lex
import Mathlib.Data.List.TakeWhile
import Mathlib.Data.String.Basic

/-!
# The files of the knowledge base

A tree of files below `docs_root`, listed in the order of their paths. Several files may be
named for one document; the document is kept in a file of its own name.
-/
namespace KnowledgeFiles

open PythonText JsonData KnowledgeText

set_option maxRecDepth 20000

/-- The parts of a path below `docs_root`. -/
abbrev Path := List String

/-- A collection and the path of a document in it. -/
abbrev Key := String × String

/-! ## Names of files -/

/-- `path.stem` and `path.suffix` of a name: a dot that ends or begins the name does not count. -/
def splitSuffix (name : String) : String × String :=
  let back := name.toList.reverse.takeWhile (· ≠ '.')
  let front := (name.toList.reverse.dropWhile (· ≠ '.')).drop 1
  if front = [] ∨ back = [] then (name, "")
  else (String.ofList front.reverse, String.ofList ('.' :: back.reverse))

def suffix (name : String) : String := (splitSuffix name).2

/-- `name` of `path.with_suffix(new)`. -/
def withSuffix (name new : String) : String := (splitSuffix name).1 ++ new

/-- `path.with_suffix(new)`. -/
def Path.withSuffix : Path → String → Path
  | [], _ => []
  | [name], new => [KnowledgeFiles.withSuffix name new]
  | part :: parts, new => part :: Path.withSuffix parts new

section
variable (py : Python)

/-- `path.suffix.lower() in {".md", ".txt"}`. -/
def isDocument (p : Path) : Bool := decide (py.lower (suffix (p.getLast?.getD "")) ∈ [".md", ".txt"])

/-- The document a file is named for; a file outside the collections and a file without a
path in its collection are ignored. -/
def keyOf : Path → Option Key
  | collection :: name :: names =>
    let relativePath := normalizeDocPath py (slashed (Path.withSuffix (name :: names) ""))
    if relativePath = "" then none else some (normalizeCollectionId py collection, relativePath)
  | _ => none

/-- `document_path`; an empty path is refused. -/
def documentPath (collectionId slug suffix : String) : Option Path :=
  let normalized := normalizeDocPath py slug
  if normalized = "" then none
  else
    let names := (normalized.toList.splitOnP (· = '/')).map String.ofList
    some (normalizeCollectionId py collectionId :: Path.withSuffix names suffix)

/-- `file_suffix_for_text`; of the content type it is known whether `markdown` or `plain`
occurs in it. -/
def fileSuffixForText (filename : Option String) (markdown plain : Bool) : String :=
  match filename with
  | some name =>
    let suffix := py.lower (suffix name)
    if suffix ∈ [".md", ".txt"] then suffix
    else if markdown then ".md" else if plain then ".txt" else ".md"
  | none => if markdown then ".md" else if plain then ".txt" else ".md"

end

/-! ## The tree -/

/-- A file; its content is the text it decodes to, if it does. -/
structure File where
  path : Path
  content : Option String
  deriving DecidableEq

/-- The line endings `read_text` translates. -/
def newlines : List Char → List Char
  | [] => []
  | '\r' :: '\n' :: cs => '\n' :: newlines cs
  | '\r' :: cs => '\n' :: newlines cs
  | c :: cs => c :: newlines cs

def universalNewlines (text : String) : String := String.ofList (newlines text.toList)

/-- `path.read_text(encoding="utf-8")`. -/
def File.readText (f : File) : Option String := f.content.map universalNewlines

/-- `sorted(docs_root.rglob("*"))`, its files apart from its directories. -/
structure Tree where
  files : List File
  directories : List Path
  sorted : files.Pairwise (fun f g => f.path < g.path)

def insertFile (new : File) : List File → List File
  | [] => [new]
  | f :: fs =>
    if new.path < f.path then new :: f :: fs
    else if f.path < new.path then f :: insertFile new fs
    else new :: fs

theorem mem_insertFile {new f : File} {fs : List File} (h : f ∈ insertFile new fs) : f = new ∨ f ∈ fs := by
  induction fs with
  | nil => exact .inl (List.mem_singleton.mp h)
  | cons g fs ih =>
    rw [insertFile] at h
    split at h
    · exact List.mem_cons.mp h
    · split at h
      · obtain rfl | h := List.mem_cons.mp h
        · exact .inr List.mem_cons_self
        · exact (ih h).imp_right (List.mem_cons_of_mem g)
      · exact (List.mem_cons.mp h).imp_right (List.mem_cons_of_mem g)

theorem sorted_insertFile (new : File) {fs : List File} (h : fs.Pairwise (fun f g => f.path < g.path)) :
    (insertFile new fs).Pairwise (fun f g => f.path < g.path) := by
  induction fs with
  | nil => exact List.pairwise_singleton _ _
  | cons f fs ih =>
    obtain ⟨hf, hfs⟩ := List.pairwise_cons.mp h
    rw [insertFile]
    split
    · rename_i hlt
      refine List.pairwise_cons.mpr ⟨fun g hg => ?_, h⟩
      obtain rfl | hg := List.mem_cons.mp hg
      · exact hlt
      · exact lt_trans hlt (hf g hg)
    · rename_i hnot
      split
      · rename_i hlt
        refine List.pairwise_cons.mpr ⟨fun g hg => ?_, ih hfs⟩
        obtain rfl | hg := mem_insertFile hg
        · exact hlt
        · exact hf g hg
      · rename_i hge
        have heq : f.path = new.path := le_antisymm (not_lt.mp hnot) (not_lt.mp hge)
        refine List.pairwise_cons.mpr ⟨fun g hg => ?_, hfs⟩
        rw [← heq]
        exact hf g hg

namespace Tree

variable (t : Tree)

def find? (p : Path) : Option File := t.files.find? (fun f => decide (f.path = p))

/-- `path.exists()`. -/
def existsAt (p : Path) : Bool := (t.find? p).isSome || decide (p ∈ t.directories)

/-- The directories above a path. -/
def parents (p : Path) : List Path := p.inits.filter (fun q => decide (q ≠ p))

/-- `path.parent.mkdir(parents=True, exist_ok=True)` and `path.write_text(text)`, refused
where a file stands above the path or a directory at it. -/
def write (p : Path) (text : String) : Option Tree :=
  if (parents p).any (fun q => (t.find? q).isSome) || decide (p ∈ t.directories) then none
  else some ⟨insertFile ⟨p, some text⟩ t.files, parents p ++ t.directories, sorted_insertFile _ t.sorted⟩

/-- `path.unlink()`. -/
def unlink (p : Path) : Tree where
  files := t.files.filter (fun f => decide (f.path ≠ p))
  directories := t.directories
  sorted := t.sorted.filter _

end Tree

/-- `existing_document_path`. -/
def existingDocumentPath (py : Python) (t : Tree) (collectionId slug : String) : Option Path :=
  match documentPath py collectionId slug ".md", documentPath py collectionId slug ".txt" with
  | some md, some txt => if t.existsAt md then some md else if t.existsAt txt then some txt else none
  | _, _ => none

/-- `resolve_path`; an empty path is refused. -/
def resolvePath (py : Python) (t : Tree) (collectionId slug : String) : Option Path :=
  (existingDocumentPath py t collectionId slug).orElse fun _ => documentPath py collectionId slug ".md"

/-! ## Files in their order -/

section
variable {t : Tree}

/-- A listed file is the file at its path. -/
theorem Tree.find?_of_mem {f : File} (h : f ∈ t.files) : t.find? f.path = some f := by
  have hsorted := t.sorted
  unfold Tree.find?
  generalize t.files = fs at h hsorted
  induction fs with
  | nil => cases h
  | cons g fs ih =>
    obtain ⟨hg, hfs⟩ := List.pairwise_cons.mp hsorted
    obtain rfl | hmem := List.mem_cons.mp h
    · simp
    · have hne : g.path ≠ f.path := ne_of_lt (hg f hmem)
      rw [List.find?_cons_of_neg (by simpa using hne), ih hmem hfs]

theorem Tree.existsAt_of_mem {f : File} (h : f ∈ t.files) : t.existsAt f.path = true := by
  rw [Tree.existsAt, t.find?_of_mem h]
  rfl

/-- Files of other names keep their order when a file is put among them. -/
theorem filter_insertFile_of_neg {new : File} {q : File → Bool} (hpath : ∀ f, f.path = new.path → q f = q new)
    (hq : q new = false) (fs : List File) : (insertFile new fs).filter q = fs.filter q := by
  induction fs with
  | nil => simp [insertFile, hq]
  | cons f fs ih =>
    rw [insertFile]
    split
    · rw [List.filter_cons_of_neg (by simp [hq])]
    · rename_i hnot
      split
      · rw [List.filter_cons, List.filter_cons, ih]
      · rename_i hge
        have hf : q f = false := (hpath f (le_antisymm (not_lt.mp hnot) (not_lt.mp hge))).trans hq
        rw [List.filter_cons_of_neg (by simp [hq]), List.filter_cons_of_neg (by simp [hf])]

/-- Files of one name are those in front of the one that is put among them, and those behind. -/
theorem filter_insertFile_of_pos {new : File} {q : File → Bool} (hq : q new = true) {fs : List File}
    (hsorted : fs.Pairwise (fun f g => f.path < g.path)) :
    (insertFile new fs).filter q = fs.filter (fun f => q f && decide (f.path < new.path)) ++
      new :: fs.filter (fun f => q f && decide (new.path < f.path)) := by
  have hbehind : ∀ gs : List File, (∀ g ∈ gs, new.path < g.path) →
      gs.filter (fun f => q f && decide (f.path < new.path)) = [] ∧
        gs.filter (fun f => q f && decide (new.path < f.path)) = gs.filter q := by
    intro gs hgs
    constructor
    · refine List.filter_eq_nil_iff.mpr fun g hg => ?_
      simp [not_lt.mpr (le_of_lt (hgs g hg))]
    · refine List.filter_congr fun g hg => ?_
      simp [hgs g hg]
  induction fs with
  | nil => simp [insertFile, hq]
  | cons f fs ih =>
    obtain ⟨hf, hfs⟩ := List.pairwise_cons.mp hsorted
    rw [insertFile]
    split
    · rename_i hlt
      obtain ⟨hfront, hback⟩ := hbehind (f :: fs) (by
        intro g hg
        obtain rfl | hg := List.mem_cons.mp hg
        · exact hlt
        · exact lt_trans hlt (hf g hg))
      rw [List.filter_cons_of_pos hq, hfront, hback, List.nil_append]
    · rename_i hnot
      split
      · rename_i hlt
        have hback : decide (new.path < f.path) = false := decide_eq_false hnot
        have hfront : decide (f.path < new.path) = true := decide_eq_true hlt
        rw [List.filter_cons, List.filter_cons, List.filter_cons, ih hfs, hback, hfront, Bool.and_true, Bool.and_false,
          if_neg Bool.false_ne_true]
        split <;> rfl
      · rename_i hge
        have heq : f.path = new.path := le_antisymm (not_lt.mp hnot) (not_lt.mp hge)
        obtain ⟨hfront, hback⟩ := hbehind fs fun g hg => heq ▸ hf g hg
        have hsame : ∀ p : Path, (q f && decide (p < p)) = false := by simp
        rw [List.filter_cons_of_pos hq, List.filter_cons, List.filter_cons, hfront, hback, heq, hsame,
          if_neg Bool.false_ne_true, if_neg Bool.false_ne_true, List.nil_append]

end

/-! ## The file of a document is named for it -/

theorem splitSuffix_bare {name : String} (h : '.' ∉ name.toList) : splitSuffix name = (name, "") := by
  have hdrop : name.toList.reverse.dropWhile (· ≠ '.') = [] := by
    refine List.dropWhile_eq_nil_iff.mpr fun c hc => ?_
    refine decide_eq_true ?_
    rintro rfl
    exact h (List.mem_reverse.mp hc)
  unfold splitSuffix
  rw [hdrop]
  simp

theorem splitSuffix_dotted {name : String} (hname : name ≠ "") (ext : List Char) (hext : ext ≠ [])
    (hdot : '.' ∉ ext) : splitSuffix (name ++ String.ofList ('.' :: ext)) = (name, String.ofList ('.' :: ext)) := by
  have hrev : (name ++ String.ofList ('.' :: ext)).toList.reverse = ext.reverse ++ '.' :: name.toList.reverse := by
    simp
  have hall : ∀ c ∈ ext.reverse, decide (c ≠ '.') = true := by
    intro c hc
    refine decide_eq_true ?_
    rintro rfl
    exact hdot (List.mem_reverse.mp hc)
  have htake : (ext.reverse ++ '.' :: name.toList.reverse).takeWhile (· ≠ '.') = ext.reverse := by
    rw [List.takeWhile_append_of_pos hall]
    simp
  have hdrop : (ext.reverse ++ '.' :: name.toList.reverse).dropWhile (· ≠ '.') = '.' :: name.toList.reverse := by
    rw [List.dropWhile_append_of_pos hall]
    simp
  have hnil : ¬ (name.toList.reverse = [] ∨ ext.reverse = []) := by
    rintro (h | h)
    · exact hname (String.toList_inj.mp (by simpa using h))
    · exact hext (List.reverse_eq_nil_iff.mp h)
  unfold splitSuffix
  rw [hrev, htake, hdrop, List.drop_one, List.tail_cons, if_neg hnil, List.reverse_reverse, List.reverse_reverse,
    String.ofList_toList]

/-- The endings of documents. -/
theorem splitSuffix_document {name suffix : String} (hname : name ≠ "") (hsuffix : suffix = ".md" ∨ suffix = ".txt") :
    splitSuffix (name ++ suffix) = (name, suffix) := by
  obtain rfl | rfl := hsuffix
  · exact splitSuffix_dotted hname ['m', 'd'] (by decide) (by decide)
  · exact splitSuffix_dotted hname ['t', 'x', 't'] (by decide) (by decide)

theorem no_dot {s : String} (h : Slug s) : '.' ∉ s.toList := fun hc => (h.plain hc).2.2.2.2 rfl

theorem Path.withSuffix_cons (part new : String) {parts : Path} (hne : parts ≠ []) :
    Path.withSuffix (part :: parts) new = part :: Path.withSuffix parts new := by
  cases parts with
  | nil => exact absurd rfl hne
  | cons q parts => rfl

/-- A suffix that was put on is taken off. -/
theorem withSuffix_slugs {slugs : List String} (h : Named slugs) {suffix : String}
    (hsuffix : suffix = ".md" ∨ suffix = ".txt") :
    Path.withSuffix (Path.withSuffix slugs suffix) "" = slugs ∧
      (slugs ≠ [] → KnowledgeFiles.suffix ((Path.withSuffix slugs suffix).getLast?.getD "") = suffix) := by
  induction slugs with
  | nil => exact ⟨rfl, fun hne => absurd rfl hne⟩
  | cons slug slugs ih =>
    obtain ⟨hslug, hne⟩ := h slug List.mem_cons_self
    cases slugs with
    | nil =>
      have hname : KnowledgeFiles.withSuffix slug suffix = slug ++ suffix := by
        rw [KnowledgeFiles.withSuffix, splitSuffix_bare (no_dot hslug)]
      have hback : splitSuffix (slug ++ suffix) = (slug, suffix) := splitSuffix_document hne hsuffix
      refine ⟨?_, fun _ => ?_⟩
      · rw [Path.withSuffix, hname, Path.withSuffix, KnowledgeFiles.withSuffix, hback, String.append_empty]
      · rw [Path.withSuffix, hname, List.getLast?_singleton, Option.getD_some, KnowledgeFiles.suffix, hback]
    | cons next slugs =>
      obtain ⟨hrest, hlast⟩ := ih fun q hq => h q (List.mem_cons_of_mem slug hq)
      obtain ⟨first, rest, hsplit⟩ : ∃ first rest, Path.withSuffix (next :: slugs) suffix = first :: rest := by
        cases slugs with
        | nil => exact ⟨_, _, rfl⟩
        | cons q slugs => exact ⟨_, _, rfl⟩
      refine ⟨?_, fun _ => ?_⟩
      · rw [Path.withSuffix_cons slug suffix (List.cons_ne_nil next slugs), hsplit,
          Path.withSuffix_cons slug "" (List.cons_ne_nil first rest), ← hsplit, hrest]
      · have hlast := hlast (by simp)
        rw [hsplit] at hlast
        rw [Path.withSuffix_cons slug suffix (List.cons_ne_nil next slugs), hsplit, List.getLast?_cons_cons, hlast]

/-- The parts of a normalized path are slugs again. -/
theorem split_slashed {slugs : List String} (h : Named slugs) (hne : slugs ≠ []) :
    ((slashed slugs).toList.splitOnP (· = '/')).map String.ofList = slugs := by
  rw [slashed, String.toList_ofList, splitOnP_joinSlash (by decide) (by simpa using hne), List.map_map]
  · exact (List.map_congr_left fun slug _ => String.ofList_toList).trans (List.map_id slugs)
  · intro part hpart c hc
    obtain ⟨slug, hslug, rfl⟩ := List.mem_map.mp hpart
    have hsep := ((h slug hslug).1.plain hc).2.2.2.1
    simp only [isSeparator, Bool.or_eq_false_iff] at hsep
    exact hsep.2

/-- The file a document is written to is a document file, and named for the document. -/
theorem documentPath_key {py : Python} (hpy : PlainLower py) {collectionId slug suffix : String} {p : Path}
    (hsuffix : suffix = ".md" ∨ suffix = ".txt") (h : documentPath py collectionId slug suffix = some p) :
    isDocument py p = true ∧
      keyOf py p = some (normalizeCollectionId py collectionId, normalizeDocPath py slug) := by
  obtain ⟨slugs, hnamed, hslugs⟩ := normalizeDocPath_slashed py slug
  unfold documentPath at h
  dsimp only at h
  split at h
  · cases h
  · rename_i hempty
    have hne : slugs ≠ [] := by
      rintro rfl
      exact hempty hslugs
    rw [hslugs, split_slashed hnamed hne] at h
    obtain ⟨hback, hlast⟩ := withSuffix_slugs hnamed hsuffix
    obtain ⟨name, names, hnames⟩ : ∃ name names, Path.withSuffix slugs suffix = name :: names := by
      cases hnames : Path.withSuffix slugs suffix with
      | nil =>
        rw [hnames, Path.withSuffix] at hback
        exact absurd hback.symm hne
      | cons name names => exact ⟨name, names, rfl⟩
    rw [hnames] at h hback hlast
    cases h
    constructor
    · have hlower : py.lower suffix = suffix := by
        have hplain : suffix.toList.all
            (fun c => decide (c.toNat < 128) && !decide (65 ≤ c.toNat ∧ c.toNat ≤ 90)) = true := by
          obtain rfl | rfl := hsuffix <;> decide
        refine hpy suffix fun c hc => ?_
        have hc := List.all_eq_true.mp hplain c hc
        simpa only [Bool.and_eq_true, Bool.not_eq_true', decide_eq_true_eq, decide_eq_false_iff_not] using hc
      rw [isDocument, List.getLast?_cons_cons, hlast hne, hlower]
      obtain rfl | rfl := hsuffix <;> decide
    · rw [keyOf, hback, ← hslugs, normalizeDocPath_idem hpy, normalizeCollectionId_idem hpy]
      exact if_neg hempty

end KnowledgeFiles
