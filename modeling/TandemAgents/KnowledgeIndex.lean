import TandemAgents.KeyedTable
import TandemAgents.KnowledgeFiles

/-!
# The index of the knowledge base

`sync_file` brings one file into the tables of documents and links, `sync_from_disk` all of
them in the order of their paths. A call may raise behind some of its statements, each of
which is its own transaction.
-/
namespace KnowledgeIndex

open KeyedTable PythonText JsonData KnowledgeText KnowledgeFiles

set_option maxRecDepth 20000

/-! ## Front matter -/

/-- The text before the first line that starts with `---`. -/
def beforeFence : List Char → Option (List Char)
  | [] => none
  | c :: cs => if "\n---".toList.isPrefixOf (c :: cs) then some [] else (beforeFence cs).map (c :: ·)

/-- The first group of `FRONTMATTER_PATTERN` on a text that starts with `---`. The blanks
behind it are given back one by one until a line feed is followed by a closing line. -/
def frontmatterSource (rawText : String) : Option String :=
  if "---".toList.isPrefixOf rawText.toList then
    let rest := rawText.toList.drop 3
    let blanks := (rest.takeWhile isSpace).length
    ((List.range blanks).reverse.findSome? fun k =>
      if rest[k]? = some '\n' then beforeFence (rest.drop (k + 1)) else none).map String.ofList
  else none

/-- What `yaml.safe_load` makes of a front matter: a mapping that `json.dumps` can spell, no
mapping or no YAML, a mapping that `json.dumps` refuses, or an error of another kind. -/
inductive Loaded where
  | dict (d : Dict)
  | other
  | unencodable
  | raises

/-- What the index takes from outside: the language, the digest and YAML. -/
structure Backend where
  py : Python
  sha256 : String → String
  safeLoad : String → Loaded

/-! ## The tables -/

/-- `source_path`, below `docs_root` or elsewhere. -/
inductive Source where
  | inside (p : Path)
  | outside (path : String)
  deriving DecidableEq

/-- A row of `documents`; `frontmatter` is what `frontmatter_json` reads as. -/
structure Document where
  docId : String
  collectionId : String
  relativePath : String
  sourcePath : Source
  body : String
  frontmatter : Dict
  contentHash : String

/-- The documents and the links; a link goes from a source to the document that names it. -/
structure Index where
  documents : Table String Document Document.docId
  links : List (String × String)

/-- The tables `initialize` creates. -/
def Index.empty : Index := ⟨Table.empty, []⟩

/-- The index, and what its calls find around it: the files, what else exists, and the
collections that may be written. -/
structure World where
  tree : Tree
  outside : String → Bool
  writable : String → Bool
  index : Index

/-- `_delete_doc_rows`. -/
def deleteDocRows (docId : String) (ix : Index) : Index where
  documents := ix.documents.erase docId
  links := ix.links.filter (fun l => decide (l.1 ≠ docId ∧ l.2 ≠ docId))

/-- `INSERT INTO documents` of a row that is not there. -/
def insertDocument (d : Document) (ix : Index) : Index :=
  { ix with documents := ix.documents.upsert d (fun _ => d) fun _ => rfl }

/-- `INSERT OR REPLACE INTO document_links`. -/
def insertLink (link : String × String) (links : List (String × String)) : List (String × String) :=
  if link ∈ links then links else links ++ [link]

/-- `_refresh_document_links`. -/
def refreshDocumentLinks (docId : String) (sourceDocIds : List String) (ix : Index) : Index where
  documents := ix.documents
  links := sourceDocIds.foldl (fun links source => insertLink (source, docId) links)
    (ix.links.filter (fun l => decide (l.2 ≠ docId)))

/-! ## One file -/

inductive KbError where
  | unreadable
  | yaml
  | json
  | noCollection
  | noPath
  | notWritable
  | alreadyExists
  | doesNotExist
  | nothingToAppend
  | fileSystem
  deriving DecidableEq, Repr

/-- An error of `sync_file`, which an edit meets behind the write of its file. -/
def KbError.behindWrite : KbError → Bool
  | unreadable | yaml | json => true
  | noCollection | noPath | notWritable | alreadyExists | doesNotExist | nothingToAppend | fileSystem => false

/-- `action`, with the document it is about. -/
inductive Action where
  | missing
  | ignored
  | unchanged (docId : String)
  | updated (docId : String)
  | created (docId : String)
  | deleted (docId : String)
  deriving DecidableEq, Repr

def Action.docId : Action → Option String
  | missing | ignored => none
  | unchanged id | updated id | created id | deleted id => some id

section
variable (b : Backend)

/-- `split_document_frontmatter`, the mapping. -/
def frontmatterOf (rawText : String) : Loaded :=
  match frontmatterSource rawText with
  | none => .dict []
  | some source =>
    match b.safeLoad source with
    | .other => .dict []
    | loaded => loaded

/-- The id of the document of a key. -/
def docIdOf (key : Key) : String := key.1 ++ "/" ++ key.2

/-- `_document_source_docs`. -/
def Document.sources (d : Document) : List String :=
  normalizeSourceDocIds b.py d.collectionId (d.frontmatter.get "kb_source_docs")

/-- The row of a text. -/
def documentOf (key : Key) (p : Path) (rawText : String) (frontmatter : Dict) : Document where
  docId := docIdOf key
  collectionId := key.1
  relativePath := key.2
  sourcePath := .inside p
  body := rawText
  frontmatter := frontmatter
  contentHash := b.sha256 rawText

/-- The statements of `sync_file` on a document that has to be written. The encoding is met
behind the deletion. -/
def storeDocument (key : Key) (p : Path) (rawText : String) (loaded : Loaded) (ix : Index) :
    Index × Except KbError Action :=
  let found := ix.documents.find? (docIdOf key)
  let cleared := if found.isSome then deleteDocRows (docIdOf key) ix else ix
  match loaded with
  | .dict frontmatter =>
    let d := documentOf b key p rawText frontmatter
    (refreshDocumentLinks d.docId (d.sources b) (insertDocument d cleared),
      .ok (if found.isSome then .updated d.docId else .created d.docId))
  | _ => (cleared, .error .json)

/-- `sync_file`. -/
def syncFile (t : Tree) (p : Path) (ix : Index) : Index × Except KbError Action :=
  if t.existsAt p = false then (ix, .ok .missing)
  else
    match keyOf b.py p with
    | none => (ix, .ok .ignored)
    | some key =>
      match (t.find? p).bind File.readText with
      | none => (ix, .error .unreadable)
      | some rawText =>
        match frontmatterOf b rawText with
        | .raises => (ix, .error .yaml)
        | loaded =>
          if (ix.documents.find? (docIdOf key)).map Document.contentHash = some (b.sha256 rawText) then
            (ix, .ok (.unchanged (docIdOf key)))
          else storeDocument b key p rawText loaded ix

/-! ## All files -/

structure Counts where
  created : Nat
  updated : Nat
  unchanged : Nat
  deleted : Nat
  ignored : Nat
  missing : Nat
  deriving DecidableEq, Repr

def Counts.zero : Counts := ⟨0, 0, 0, 0, 0, 0⟩

def Counts.add (c : Counts) : Action → Counts
  | .missing => { c with missing := c.missing + 1 }
  | .ignored => { c with ignored := c.ignored + 1 }
  | .unchanged _ => { c with unchanged := c.unchanged + 1 }
  | .updated _ => { c with updated := c.updated + 1 }
  | .created _ => { c with created := c.created + 1 }
  | .deleted _ => { c with deleted := c.deleted + 1 }

/-- The collection a call asks for, if it asks for one. -/
def inCollection (filter : Option String) (name : String) : Bool :=
  match filter with
  | none => true
  | some collection =>
    decide (collection = "" ∨ normalizeCollectionId b.py name = normalizeCollectionId b.py collection)

/-- The loop of `sync_from_disk` over the files, with the documents it has seen. -/
def syncFiles (t : Tree) (filter : Option String) :
    List File → Counts → List String → Index → Index × Except KbError (Counts × List String)
  | [], counts, seen, ix => (ix, .ok (counts, seen))
  | f :: fs, counts, seen, ix =>
    if isDocument b.py f.path = false then syncFiles t filter fs counts seen ix
    else if f.path.length < 2 then syncFiles t filter fs (counts.add .ignored) seen ix
    else if inCollection b filter (f.path.headD "") = false then syncFiles t filter fs counts seen ix
    else
      match syncFile b t f.path ix with
      | (ix, .error e) => (ix, .error e)
      | (ix, .ok action) => syncFiles t filter fs (counts.add action) (seen ++ action.docId.toList) ix

/-- Whether the file a row was read from is still there; of other places it is only asked. -/
def Source.present (t : Tree) (outside : String → Bool) : Source → Bool
  | .inside p => t.existsAt p
  | .outside path => outside path

/-- `doc_id.split("/", 1)[0]`. -/
def collectionOf (docId : String) : String := String.ofList (docId.toList.takeWhile (· ≠ '/'))

/-- The documents `sync_from_disk` deletes. -/
def isGone (t : Tree) (outside : String → Bool) (filter : Option String) (seen : List String) (d : Document) : Bool :=
  inCollection b filter (collectionOf d.docId) && !decide (d.docId ∈ seen) && !d.sourcePath.present t outside

/-- The loop of `sync_from_disk` over the rows. -/
def pruneRows (t : Tree) (outside : String → Bool) (filter : Option String) (seen : List String) :
    List Document → Counts → Index → Index × Counts
  | [], counts, ix => (ix, counts)
  | d :: ds, counts, ix =>
    if isGone b t outside filter seen d then
      pruneRows t outside filter seen ds (counts.add (.deleted d.docId)) (deleteDocRows d.docId ix)
    else pruneRows t outside filter seen ds counts ix

/-- `sync_from_disk`. -/
def syncFromDisk (t : Tree) (outside : String → Bool) (filter : Option String) (ix : Index) :
    Index × Except KbError Counts :=
  match syncFiles b t filter t.files Counts.zero [] ix with
  | (ix, .error e) => (ix, .error e)
  | (ix, .ok (counts, seen)) =>
    let (ix, counts) := pruneRows b t outside filter seen ix.documents.rows counts ix
    (ix, .ok counts)

/-- `remove_document`. -/
def removeDocument (writable : String → Bool) (collectionId docPath : String) (ix : Index) :
    Index × Except KbError Action :=
  let collectionId := normalizeCollectionId b.py collectionId
  let docPath := normalizeDocPath b.py docPath
  let docId := collectionDocumentId b.py collectionId docPath
  if collectionId = "" then (ix, .error .noCollection)
  else if docPath = "" then (ix, .error .noPath)
  else if writable collectionId = false then (ix, .error .notWritable)
  else if (ix.documents.find? docId).isSome then (deleteDocRows docId ix, .ok (.deleted docId))
  else (ix, .ok .missing)

end

/-! ## Deleted rows -/

variable {b : Backend} {ix : Index}

@[simp] theorem mem_links_deleteDocRows {id source target : String} :
    (source, target) ∈ (deleteDocRows id ix).links ↔ (source, target) ∈ ix.links ∧ source ≠ id ∧ target ≠ id := by
  simp [deleteDocRows]

@[simp] theorem find?_deleteDocRows (id k : String) :
    (deleteDocRows id ix).documents.find? k = if k = id then none else ix.documents.find? k :=
  Table.find?_erase _ _ _

/-- The loop over the rows deletes what is gone. -/
theorem pruneRows_index (t : Tree) (outside : String → Bool) (filter : Option String) (seen : List String)
    (ds : List Document) (counts : Counts) (ix : Index) :
    (pruneRows b t outside filter seen ds counts ix).1 =
      (ds.filter (isGone b t outside filter seen)).foldl (fun ix d => deleteDocRows d.docId ix) ix := by
  induction ds generalizing counts ix with
  | nil => rfl
  | cons d ds ih =>
    rw [pruneRows]
    split
    · rename_i hgone
      rw [ih, List.filter_cons_of_pos hgone, List.foldl_cons]
    · rename_i hgone
      rw [ih, List.filter_cons_of_neg hgone]

/-- Rows deleted one by one. -/
theorem foldl_deleteDocRows (ds : List Document) (ix : Index) :
    (∀ k, (ds.foldl (fun ix d => deleteDocRows d.docId ix) ix).documents.find? k =
      if k ∈ ds.map Document.docId then none else ix.documents.find? k) ∧
    (∀ source target, (source, target) ∈ (ds.foldl (fun ix d => deleteDocRows d.docId ix) ix).links ↔
      (source, target) ∈ ix.links ∧ source ∉ ds.map Document.docId ∧ target ∉ ds.map Document.docId) := by
  induction ds generalizing ix with
  | nil => simp
  | cons d ds ih =>
    obtain ⟨hfind, hlinks⟩ := ih (deleteDocRows d.docId ix)
    rw [List.foldl_cons]
    constructor
    · intro k
      rw [hfind, find?_deleteDocRows, List.map_cons]
      simp only [List.mem_cons]
      grind
    · intro source target
      rw [hlinks, mem_links_deleteDocRows, List.map_cons, List.mem_cons, List.mem_cons]
      grind

end KnowledgeIndex
