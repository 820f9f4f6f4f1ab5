import TandemAgents.KnowledgeLinks

/-!
# The tables of the index, statement by statement

The connection is in autocommit, so that every statement of `sync_file` is a transaction of its
own: what it deletes and inserts is a list of statements, and a process that is stopped has
executed some of the first of them. Chunks and their entries in the full-text table come in pairs,
an entry under the id of its chunk.
-/
namespace KnowledgeTables

open KeyedTable PythonText JsonData KnowledgeText KnowledgeFiles KnowledgeIndex KnowledgeLinks

set_option maxRecDepth 20000

/-! ## The tables -/

/-- A row of `chunks`. -/
structure Chunk where
  chunkId : Nat
  docId : String
  ordinal : Nat
  heading : String
  content : String
  deriving DecidableEq

/-- What a row of `chunks_fts` holds under its `rowid`. -/
structure Entry where
  docId : String
  collectionId : String
  slug : String
  title : String
  heading : String
  content : String
  tags : String
  deriving DecidableEq

/-- All tables; `last` is the last id `chunks` has given out. -/
structure Tables where
  index : Index
  chunks : List Chunk
  fts : List (Nat × Entry)
  last : Nat

def Tables.empty : Tables := ⟨Index.empty, [], [], 0⟩

inductive Statement where
  | deleteFts (rowid : Nat)
  | deleteChunks (docId : String)
  | deleteLinks (docId : String)
  | deleteDocument (docId : String)
  | insertDocument (d : Document)
  | insertChunk (docId : String) (ordinal : Nat) (heading content : String)
  | insertFts (e : Entry)
  | clearLinks (docId : String)
  | insertLink (source docId : String)

/-- The chunks of other documents. -/
def otherChunks (docId : String) (chunks : List Chunk) : List Chunk := chunks.filter fun c => decide (c.docId ≠ docId)

/-- One statement. A document takes its chunks with it, and an entry is inserted under the id that
was given out last. -/
def Statement.exec (t : Tables) : Statement → Tables
  | deleteFts rowid => { t with fts := t.fts.filter fun r => decide (r.1 ≠ rowid) }
  | deleteChunks docId => { t with chunks := otherChunks docId t.chunks }
  | deleteLinks docId =>
    { t with index := { t.index with links := t.index.links.filter fun l => decide (l.1 ≠ docId ∧ l.2 ≠ docId) } }
  | deleteDocument docId =>
    { t with
      index := { t.index with documents := t.index.documents.erase docId }
      chunks := otherChunks docId t.chunks }
  | insertDocument d => { t with index := KnowledgeIndex.insertDocument d t.index }
  | insertChunk docId ordinal heading content =>
    { t with chunks := t.chunks ++ [⟨t.last + 1, docId, ordinal, heading, content⟩], last := t.last + 1 }
  | insertFts e => { t with fts := t.fts ++ [(t.last, e)] }
  | clearLinks docId =>
    { t with index := { t.index with links := t.index.links.filter fun l => decide (l.2 ≠ docId) } }
  | insertLink source docId =>
    { t with index := { t.index with links := KnowledgeIndex.insertLink (source, docId) t.index.links } }

def run (statements : List Statement) (t : Tables) : Tables := statements.foldl Statement.exec t

theorem run_append (as bs : List Statement) (t : Tables) : run (as ++ bs) t = run bs (run as t) := List.foldl_append

/-! ## The statements of a sync -/

/-- What `parse_document` and `split_chunks` read of a text. -/
structure Reader where
  title : Key → Path → String → String
  tagText : String → String
  body : String → String
  splitChunks : String → List (String × String)

/-- The chunks of a text, which are never none. -/
def Reader.chunks (r : Reader) (rawText : String) : List (String × String) :=
  let chunks := r.splitChunks (r.body rawText)
  if chunks.isEmpty then [("", r.body rawText)] else chunks

/-- The ids of a document's chunks. -/
def chunkIds (docId : String) (t : Tables) : List Nat :=
  (t.chunks.filter fun c => decide (c.docId = docId)).map Chunk.chunkId

/-- `_delete_doc_rows`. -/
def deletions (docId : String) (t : Tables) : List Statement :=
  (chunkIds docId t).map .deleteFts ++ [.deleteChunks docId, .deleteLinks docId, .deleteDocument docId]

section
variable (b : Backend) (r : Reader)

/-- The entry of a chunk. -/
def entryOf (key : Key) (p : Path) (rawText : String) (chunk : String × String) : Entry where
  docId := docIdOf key
  collectionId := key.1
  slug := key.2
  title := r.title key p rawText
  heading := chunk.1
  content := chunk.2
  tags := r.tagText rawText

/-- The loop of `_insert_chunks`. -/
def chunkStatements (docId : String) (entry : String × String → Entry) : Nat → List (String × String) → List Statement
  | _, [] => []
  | ordinal, chunk :: chunks =>
    .insertChunk docId ordinal chunk.1 chunk.2 :: .insertFts (entry chunk) :: chunkStatements docId entry (ordinal + 1) chunks

/-- `_refresh_document_links`. -/
def linkStatements (docId : String) (sources : List String) : List Statement :=
  .clearLinks docId :: sources.map fun source => .insertLink source docId

/-- What `sync_file` inserts for a text. -/
def insertions (key : Key) (p : Path) (rawText : String) (frontmatter : Dict) : List Statement :=
  .insertDocument (documentOf b key p rawText frontmatter) ::
    (chunkStatements (docIdOf key) (entryOf r key p rawText) 0 (r.chunks rawText) ++
      linkStatements (docIdOf key) ((documentOf b key p rawText frontmatter).sources b))

/-- The statements of `sync_file` on a document that has to be written, and what it answers. -/
def storeStatements (key : Key) (p : Path) (rawText : String) (loaded : Loaded) (t : Tables) :
    List Statement × Except KbError Action :=
  let found := t.index.documents.find? (docIdOf key)
  let cleared := if found.isSome then deletions (docIdOf key) t else []
  match loaded with
  | .dict frontmatter =>
    (cleared ++ insertions b r key p rawText frontmatter,
      .ok (if found.isSome then .updated (docIdOf key) else .created (docIdOf key)))
  | _ => (cleared, .error .json)

/-- The statements of `sync_file`, and what it answers. -/
def fileStatements (tree : Tree) (p : Path) (t : Tables) : List Statement × Except KbError Action :=
  if tree.existsAt p = false then ([], .ok .missing)
  else
    match keyOf b.py p with
    | none => ([], .ok .ignored)
    | some key =>
      match (tree.find? p).bind File.readText with
      | none => ([], .error .unreadable)
      | some rawText =>
        match frontmatterOf b rawText with
        | .raises => ([], .error .yaml)
        | loaded =>
          if (t.index.documents.find? (docIdOf key)).map Document.contentHash = some (b.sha256 rawText) then
            ([], .ok (.unchanged (docIdOf key)))
          else storeStatements b r key p rawText loaded t

/-- A call of `sync_file` that is not stopped. -/
def syncFile (tree : Tree) (p : Path) (t : Tables) : Tables × Except KbError Action :=
  (run (fileStatements b r tree p t).1 t, (fileStatements b r tree p t).2)

/-- The loop of `sync_from_disk` over the files. -/
def syncFiles (tree : Tree) (filter : Option String) :
    List File → Counts → List String → Tables → Tables × Except KbError (Counts × List String)
  | [], counts, seen, t => (t, .ok (counts, seen))
  | f :: fs, counts, seen, t =>
    if isDocument b.py f.path = false then syncFiles tree filter fs counts seen t
    else if f.path.length < 2 then syncFiles tree filter fs (counts.add .ignored) seen t
    else if inCollection b filter (f.path.headD "") = false then syncFiles tree filter fs counts seen t
    else
      match syncFile b r tree f.path t with
      | (t, .error e) => (t, .error e)
      | (t, .ok action) => syncFiles tree filter fs (counts.add action) (seen ++ action.docId.toList) t

/-- The loop of `sync_from_disk` over the rows. -/
def pruneRows (tree : Tree) (outside : String → Bool) (filter : Option String) (seen : List String) :
    List Document → Counts → Tables → Tables × Counts
  | [], counts, t => (t, counts)
  | d :: ds, counts, t =>
    if isGone b tree outside filter seen d then
      pruneRows tree outside filter seen ds (counts.add (.deleted d.docId)) (run (deletions d.docId t) t)
    else pruneRows tree outside filter seen ds counts t

/-- `sync_from_disk`. -/
def syncFromDisk (tree : Tree) (outside : String → Bool) (filter : Option String) (t : Tables) :
    Tables × Except KbError Counts :=
  match syncFiles b r tree filter tree.files Counts.zero [] t with
  | (t, .error e) => (t, .error e)
  | (t, .ok (counts, seen)) =>
    let (t, counts) := pruneRows b tree outside filter seen t.index.documents.rows counts t
    (t, .ok counts)

end

/-! ## Running statements -/

section
variable {b : Backend} {r : Reader} {t : Tables}

/-- The tables without a document. -/
def clear (docId : String) (t : Tables) : Tables where
  index := deleteDocRows docId t.index
  chunks := otherChunks docId t.chunks
  fts := t.fts.filter fun row => decide (row.1 ∉ chunkIds docId t)
  last := t.last

theorem run_deleteFts (ids : List Nat) (t : Tables) :
    run (ids.map .deleteFts) t = { t with fts := t.fts.filter fun row => decide (row.1 ∉ ids) } := by
  induction ids generalizing t with
  | nil => simp [run]
  | cons id ids ih =>
    have hstep : run ((id :: ids).map .deleteFts) t = run (ids.map .deleteFts) (Statement.exec t (.deleteFts id)) := rfl
    rw [hstep, ih, Statement.exec, List.filter_filter]
    congr 1
    refine List.filter_congr fun row _ => ?_
    simp only [List.mem_cons, ← Bool.decide_and, ne_eq, decide_eq_decide]
    tauto

theorem otherChunks_idem (docId : String) (chunks : List Chunk) :
    otherChunks docId (otherChunks docId chunks) = otherChunks docId chunks := by
  simp [otherChunks]

theorem run_deletions (docId : String) (t : Tables) : run (deletions docId t) t = clear docId t := by
  rw [deletions, run_append, run_deleteFts]
  change Tables.mk _ (otherChunks docId (otherChunks docId t.chunks)) _ _ = _
  rw [otherChunks_idem]
  rfl

theorem run_chunkStatements_index (docId : String) (entry : String × String → Entry) (ordinal : Nat)
    (chunks : List (String × String)) (t : Tables) :
    (run (chunkStatements docId entry ordinal chunks) t).index = t.index := by
  induction chunks generalizing ordinal t with
  | nil => rfl
  | cons chunk chunks ih => exact ih _ _

/-- The link table behind the first of some insertions. -/
theorem run_insertLinks (docId : String) (sources : List String) (t : Tables) :
    run (sources.map fun source => .insertLink source docId) t =
      { t with index := { t.index with
        links := sources.foldl (fun links source => insertLink (source, docId) links) t.index.links } } := by
  induction sources generalizing t with
  | nil => rfl
  | cons source sources ih => exact ih _

theorem run_linkStatements (docId : String) (sources : List String) (t : Tables) :
    run (linkStatements docId sources) t = { t with index := refreshDocumentLinks docId sources t.index } :=
  run_insertLinks docId sources (Statement.exec t (.clearLinks docId))

/-! ## The documents and links are those of the index -/

theorem run_storeStatements (key : Key) (p : Path) (rawText : String) (loaded : Loaded) (t : Tables) :
    ((run (storeStatements b r key p rawText loaded t).1 t).index, (storeStatements b r key p rawText loaded t).2) =
      storeDocument b key p rawText loaded t.index := by
  have hclear : (run (if (t.index.documents.find? (docIdOf key)).isSome then deletions (docIdOf key) t else []) t).index =
      if (t.index.documents.find? (docIdOf key)).isSome then deleteDocRows (docIdOf key) t.index else t.index := by
    split
    · rw [run_deletions]
      rfl
    · rfl
  unfold storeStatements storeDocument
  cases loaded with
  | dict frontmatter =>
    dsimp only
    rw [run_append, insertions, ← hclear]
    generalize run (if (t.index.documents.find? (docIdOf key)).isSome then deletions (docIdOf key) t else []) t = cleared
    have hrun : (run (.insertDocument (documentOf b key p rawText frontmatter) ::
        (chunkStatements (docIdOf key) (entryOf r key p rawText) 0 (r.chunks rawText) ++
          linkStatements (docIdOf key) ((documentOf b key p rawText frontmatter).sources b))) cleared).index =
        refreshDocumentLinks (docIdOf key) ((documentOf b key p rawText frontmatter).sources b)
          (insertDocument (documentOf b key p rawText frontmatter) cleared.index) := by
      change (run (_ ++ _) (Statement.exec cleared (.insertDocument _))).index = _
      rw [run_append, run_linkStatements, run_chunkStatements_index]
      rfl
    rw [hrun]
    rfl
  | other | unencodable | raises => exact congrArg (·, _) hclear

/-- `sync_file` on all tables does on the index what it does there. -/
theorem syncFile_index (tree : Tree) (p : Path) (t : Tables) :
    ((syncFile b r tree p t).1.index, (syncFile b r tree p t).2) = KnowledgeIndex.syncFile b tree p t.index := by
  unfold syncFile fileStatements KnowledgeIndex.syncFile
  split
  · rfl
  · cases keyOf b.py p with
    | none => rfl
    | some key =>
      cases (tree.find? p).bind File.readText with
      | none => rfl
      | some rawText =>
        dsimp only
        cases frontmatterOf b rawText with
        | raises => rfl
        | dict _ | other | unencodable =>
          dsimp only
          split
          · rfl
          · exact run_storeStatements _ _ _ _ _

theorem syncFiles_index (tree : Tree) (filter : Option String) (fs : List File) (counts : Counts) (seen : List String)
    (t : Tables) :
    ((syncFiles b r tree filter fs counts seen t).1.index, (syncFiles b r tree filter fs counts seen t).2) =
      KnowledgeIndex.syncFiles b tree filter fs counts seen t.index := by
  induction fs generalizing counts seen t with
  | nil => rfl
  | cons f fs ih =>
    rw [syncFiles, KnowledgeIndex.syncFiles]
    split
    · exact ih _ _ _
    · split
      · exact ih _ _ _
      · split
        · exact ih _ _ _
        · rw [← syncFile_index (r := r)]
          cases hsync : syncFile b r tree f.path t with
          | mk t' outcome =>
            cases outcome with
            | error e => rfl
            | ok action => exact ih _ _ _

theorem pruneRows_index (tree : Tree) (outside : String → Bool) (filter : Option String) (seen : List String)
    (ds : List Document) (counts : Counts) (t : Tables) :
    ((pruneRows b tree outside filter seen ds counts t).1.index, (pruneRows b tree outside filter seen ds counts t).2) =
      KnowledgeIndex.pruneRows b tree outside filter seen ds counts t.index := by
  induction ds generalizing counts t with
  | nil => rfl
  | cons d ds ih =>
    rw [pruneRows, KnowledgeIndex.pruneRows]
    split
    · rw [ih, run_deletions]
      rfl
    · exact ih _ _

/-- A sync of all tables does on the index what a sync does there. -/
theorem syncFromDisk_index (tree : Tree) (outside : String → Bool) (filter : Option String) (t : Tables) :
    ((syncFromDisk b r tree outside filter t).1.index, (syncFromDisk b r tree outside filter t).2) =
      KnowledgeIndex.syncFromDisk b tree outside filter t.index := by
  have hfiles := syncFiles_index (b := b) (r := r) tree filter tree.files Counts.zero [] t
  unfold syncFromDisk KnowledgeIndex.syncFromDisk
  rw [← hfiles]
  cases hsync : syncFiles b r tree filter tree.files Counts.zero [] t with
  | mk t' outcome =>
    cases outcome with
    | error e => rfl
    | ok result =>
      obtain ⟨counts, seen⟩ := result
      have hprune := pruneRows_index (b := b) tree outside filter seen t'.index.documents.rows counts t'
      dsimp only
      rw [← hprune]

end
end KnowledgeTables
