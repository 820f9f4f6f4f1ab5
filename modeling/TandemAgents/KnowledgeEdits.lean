import TandemAgents.KnowledgeIndex

/-!
# Edits of documents

A document is created, updated, appended to or given other metadata by writing its file and
indexing it; it is deleted by removing its file and its rows. Which of its two possible files
is meant is decided by each edit for itself.
-/
namespace KnowledgeEdits

open KeyedTable PythonText JsonData KnowledgeText KnowledgeFiles KnowledgeIndex

set_option maxRecDepth 20000

/-- What a client asks to be written; of the content type it is known whether `markdown` or
`plain` occurs in it. `stored` is what `merge_document_frontmatter` makes of the request and of
the document that is there. -/
structure Request where
  collectionId : String
  docPath : String
  filename : Option String
  markdown : Bool
  plain : Bool
  heading : String
  content : String
  stored : Option Document → String

/-- `Path(existing["path"]).name`. -/
def fileName (d : Document) : String :=
  match d.sourcePath with
  | .inside p => p.getLast?.getD ""
  | .outside path => String.ofList (path.toList.reverse.takeWhile (· ≠ '/')).reverse

section
variable (b : Backend)

/-- `get_document`. -/
def getDocument (collectionId docPath : String) (w : World) : Option Document :=
  w.index.documents.find? (collectionDocumentId b.py collectionId docPath)

/-- `content_type`, which `parse_document` reads off the name of the file. -/
def isMarkdown (d : Document) : Bool := decide (b.py.lower (suffix (fileName d)) = ".md")

/-- The two checks at the head of every edit. -/
def addressed {α : Type} (collectionId docPath : String) (w : World)
    (edit : String → String → World × Except KbError α) : World × Except KbError α :=
  let collectionId := normalizeCollectionId b.py collectionId
  let docPath := normalizeDocPath b.py docPath
  if collectionId = "" then (w, .error .noCollection)
  else if docPath = "" then (w, .error .noPath)
  else edit collectionId docPath

/-- `write_document` behind its checks: the file is written and indexed. -/
def putDocument (collectionId docPath suffix storedText : String) (w : World) : World × Except KbError Action :=
  if w.writable collectionId = false then (w, .error .notWritable)
  else
    match documentPath b.py collectionId docPath suffix with
    | none => (w, .error .noPath)
    | some path =>
      match w.tree.write path storedText with
      | none => (w, .error .fileSystem)
      | some tree =>
        ({ w with tree := tree, index := (syncFile b tree path w.index).1 }, (syncFile b tree path w.index).2)

/-- `write_document`. -/
def writeDocument (collectionId docPath : String) (filename : Option String) (markdown plain : Bool)
    (storedText : String) (w : World) : World × Except KbError Action :=
  addressed b collectionId docPath w fun collectionId docPath =>
    putDocument b collectionId docPath (fileSuffixForText b.py filename markdown plain) storedText w

/-- `create_document`. -/
def createDocument (r : Request) (w : World) : World × Except KbError Action :=
  addressed b r.collectionId r.docPath w fun collectionId docPath =>
    match getDocument b collectionId docPath w with
    | some _ => (w, .error .alreadyExists)
    | none => writeDocument b collectionId docPath r.filename r.markdown r.plain (r.stored none) w

/-- `update_document`. -/
def updateDocument (r : Request) (w : World) : World × Except KbError Action :=
  addressed b r.collectionId r.docPath w fun collectionId docPath =>
    match getDocument b collectionId docPath w with
    | none => (w, .error .doesNotExist)
    | some d => writeDocument b collectionId docPath r.filename r.markdown r.plain (r.stored (some d)) w

/-- `section_text`. -/
def sectionText (heading content : String) : String :=
  let heading := strip heading
  let content := strip content
  strip (String.intercalate "\n\n"
    ((if heading = "" then [] else ["## " ++ heading]) ++ if content = "" then [] else [content]))

/-- `append_section`. -/
def appendSection (r : Request) (w : World) : World × Except KbError Action :=
  addressed b r.collectionId r.docPath w fun collectionId docPath =>
    if sectionText r.heading r.content = "" then (w, .error .nothingToAppend)
    else
      match getDocument b collectionId docPath w with
      | some d =>
        writeDocument b collectionId docPath (some (fileName d)) (isMarkdown b d) (!isMarkdown b d)
          (r.stored (some d)) w
      | none =>
        createDocument b { r with
          collectionId := collectionId, docPath := docPath, filename := none, markdown := false, plain := false } w

/-- `update_document_metadata`. -/
def updateDocumentMetadata (r : Request) (w : World) : World × Except KbError Action :=
  addressed b r.collectionId r.docPath w fun collectionId docPath =>
    match getDocument b collectionId docPath w with
    | none => (w, .error .doesNotExist)
    | some d =>
      writeDocument b collectionId docPath (some (fileName d)) (isMarkdown b d) (!isMarkdown b d) (r.stored (some d)) w

/-- The `delete` of `_apply_proposed_change_payload`. -/
def deleteDocument (collectionId docPath : String) (w : World) : World × Except KbError Action :=
  if w.writable (normalizeCollectionId b.py collectionId) = false then (w, .error .notWritable)
  else
    match resolvePath b.py w.tree collectionId docPath with
    | none => (w, .error .noPath)
    | some path =>
      if path ∈ w.tree.directories then (w, .error .fileSystem)
      else
        let tree := w.tree.unlink path
        ({ w with tree := tree, index := (removeDocument b w.writable collectionId docPath w.index).1 },
          (removeDocument b w.writable collectionId docPath w.index).2)

/-! ## Any edit -/

inductive Kind where
  | create | update | append | metadata
  deriving DecidableEq, Repr

def write (kind : Kind) (r : Request) (w : World) : World × Except KbError Action :=
  match kind with
  | .create => createDocument b r w
  | .update => updateDocument b r w
  | .append => appendSection b r w
  | .metadata => updateDocumentMetadata b r w

/-- The document a client names. -/
def keyFor (collectionId docPath : String) : Key :=
  (normalizeCollectionId b.py collectionId, normalizeDocPath b.py docPath)

/-- The document that is there before an edit. -/
def before (r : Request) (w : World) : Option Document :=
  w.index.documents.find? (docIdOf (keyFor b r.collectionId r.docPath))

/-- The ending of a file that is there. -/
def keptSuffix (d : Document) : String :=
  fileSuffixForText b.py (some (fileName d)) (isMarkdown b d) (!isMarkdown b d)

/-- The ending of the file an edit writes. -/
def writtenSuffix (kind : Kind) (r : Request) (w : World) : String :=
  match kind with
  | .create | .update => fileSuffixForText b.py r.filename r.markdown r.plain
  | .append | .metadata => ((before b r w).map (keptSuffix b)).getD ".md"

end

/-! ## What an edit does -/

section
variable {b : Backend}

theorem addressed_cases {α : Type} (collectionId docPath : String) (w : World)
    (edit : String → String → World × Except KbError α) :
    (∃ e, addressed b collectionId docPath w edit = (w, .error e) ∧ e.behindWrite = false) ∨
      addressed b collectionId docPath w edit =
        edit (normalizeCollectionId b.py collectionId) (normalizeDocPath b.py docPath) := by
  unfold addressed
  dsimp only
  split
  · exact .inl ⟨_, rfl, rfl⟩
  · split
    · exact .inl ⟨_, rfl, rfl⟩
    · exact .inr rfl

/-- A name that is normalized already names the same document. -/
theorem collectionDocumentId_normalized (hpy : PlainLower b.py) (collectionId docPath : String) :
    collectionDocumentId b.py (normalizeCollectionId b.py collectionId) (normalizeDocPath b.py docPath) =
      docIdOf (keyFor b collectionId docPath) := by
  rw [collectionDocumentId, normalizeCollectionId_idem hpy, normalizeDocPath_idem hpy]
  rfl

theorem documentPath_normalized (hpy : PlainLower b.py) (collectionId docPath suffix : String) :
    documentPath b.py (normalizeCollectionId b.py collectionId) (normalizeDocPath b.py docPath) suffix =
      documentPath b.py collectionId docPath suffix := by
  unfold documentPath
  rw [normalizeCollectionId_idem hpy, normalizeDocPath_idem hpy]

theorem fileSuffixForText_cases (py : Python) (filename : Option String) (markdown plain : Bool) :
    fileSuffixForText py filename markdown plain = ".md" ∨ fileSuffixForText py filename markdown plain = ".txt" := by
  have hother : (if markdown then ".md" else if plain then ".txt" else ".md") = ".md" ∨
      (if markdown then ".md" else if plain then ".txt" else ".md") = ".txt" := by
    cases markdown <;> cases plain <;> simp
  cases filename with
  | none => exact hother
  | some name =>
    unfold fileSuffixForText
    dsimp only
    split
    · rename_i hmem
      simpa using hmem
    · exact hother

theorem writtenSuffix_cases (b : Backend) (kind : Kind) (r : Request) (w : World) :
    writtenSuffix b kind r w = ".md" ∨ writtenSuffix b kind r w = ".txt" := by
  cases kind with
  | create | update => exact fileSuffixForText_cases _ _ _ _
  | append | metadata =>
    unfold writtenSuffix
    dsimp only
    cases before b r w with
    | none => exact .inl rfl
    | some d => exact fileSuffixForText_cases b.py (some (fileName d)) (isMarkdown b d) (!isMarkdown b d)

/-- An edit is refused, or it writes one file and indexes it; only then `sync_file` may raise. -/
def Writes (b : Backend) (collectionId docPath suffix text : String) (w : World)
    (result : World × Except KbError Action) : Prop :=
  (∃ e, result = (w, .error e) ∧ e.behindWrite = false) ∨
    ∃ path tree, documentPath b.py collectionId docPath suffix = some path ∧ w.tree.write path text = some tree ∧
      result = ({ w with tree := tree, index := (syncFile b tree path w.index).1 }, (syncFile b tree path w.index).2)

theorem putDocument_writes (collectionId docPath suffix storedText : String) (w : World) :
    Writes b collectionId docPath suffix storedText w (putDocument b collectionId docPath suffix storedText w) := by
  unfold putDocument
  split
  · exact .inl ⟨_, rfl, rfl⟩
  · split
    · exact .inl ⟨_, rfl, rfl⟩
    · rename_i path hpath
      split
      · exact .inl ⟨_, rfl, rfl⟩
      · rename_i tree htree
        exact .inr ⟨path, tree, hpath, htree, rfl⟩

theorem writeDocument_writes (hpy : PlainLower b.py) (collectionId docPath storedText : String)
    (filename : Option String) (markdown plain : Bool) (w : World) :
    Writes b collectionId docPath (fileSuffixForText b.py filename markdown plain) storedText w
      (writeDocument b (normalizeCollectionId b.py collectionId) (normalizeDocPath b.py docPath) filename markdown plain
        storedText w) := by
  rw [writeDocument]
  obtain ⟨e, h, he⟩ | h := addressed_cases (b := b) (normalizeCollectionId b.py collectionId)
    (normalizeDocPath b.py docPath) w fun collectionId docPath =>
      putDocument b collectionId docPath (fileSuffixForText b.py filename markdown plain) storedText w
  · exact .inl ⟨e, h, he⟩
  · have hput := putDocument_writes (b := b) (normalizeCollectionId b.py collectionId) (normalizeDocPath b.py docPath)
      (fileSuffixForText b.py filename markdown plain) storedText w
    rw [h, normalizeCollectionId_idem hpy, normalizeDocPath_idem hpy]
    rwa [Writes, documentPath_normalized hpy] at hput

/-- Every kind of edit writes one file of the document, with the ending it chose. -/
theorem write_writes (hpy : PlainLower b.py) (kind : Kind) (r : Request) (w : World) :
    Writes b r.collectionId r.docPath (writtenSuffix b kind r w) (r.stored (before b r w)) w (write b kind r w) := by
  have hget : getDocument b (normalizeCollectionId b.py r.collectionId) (normalizeDocPath b.py r.docPath) w =
      before b r w := by
    rw [getDocument, collectionDocumentId_normalized hpy, before]
  have hfile := fun storedText filename markdown plain =>
    writeDocument_writes hpy r.collectionId r.docPath storedText filename markdown plain w
  cases kind with
  | create =>
    rw [write, createDocument]
    obtain ⟨e, h, he⟩ | h := addressed_cases (b := b) r.collectionId r.docPath w _
    · exact .inl ⟨e, h, he⟩
    · rw [h, hget, writtenSuffix]
      cases before b r w with
      | some d => exact .inl ⟨_, rfl, rfl⟩
      | none => exact hfile _ _ _ _
  | update =>
    rw [write, updateDocument]
    obtain ⟨e, h, he⟩ | h := addressed_cases (b := b) r.collectionId r.docPath w _
    · exact .inl ⟨e, h, he⟩
    · rw [h, hget, writtenSuffix]
      cases before b r w with
      | none => exact .inl ⟨_, rfl, rfl⟩
      | some d => exact hfile _ _ _ _
  | append =>
    rw [write, appendSection]
    obtain ⟨e, h, he⟩ | h := addressed_cases (b := b) r.collectionId r.docPath w _
    · exact .inl ⟨e, h, he⟩
    · rw [h, hget, writtenSuffix]
      split
      · exact .inl ⟨_, rfl, rfl⟩
      · cases hbefore : before b r w with
        | some d => exact hfile _ _ _ _
        | none =>
          -- the request without a file name goes on to `create_document`
          dsimp only
          rw [createDocument]
          obtain ⟨e, h, he⟩ | h := addressed_cases (b := b) (normalizeCollectionId b.py r.collectionId)
            (normalizeDocPath b.py r.docPath) w _
          · exact .inl ⟨e, h, he⟩
          · rw [h, normalizeCollectionId_idem hpy, normalizeDocPath_idem hpy, hget, hbefore]
            exact hfile (r.stored none) none false false
  | metadata =>
    rw [write, updateDocumentMetadata]
    obtain ⟨e, h, he⟩ | h := addressed_cases (b := b) r.collectionId r.docPath w _
    · exact .inl ⟨e, h, he⟩
    · rw [h, hget, writtenSuffix]
      cases before b r w with
      | none => exact .inl ⟨_, rfl, rfl⟩
      | some d => exact hfile _ _ _ _

/-- A document is not deleted at all, or one file of it is removed and then its rows. -/
theorem deleteDocument_cases (collectionId docPath : String) (w : World) :
    (∃ e, deleteDocument b collectionId docPath w = (w, .error e) ∧ e.behindWrite = false) ∨
      ∃ path, resolvePath b.py w.tree collectionId docPath = some path ∧
        w.writable (normalizeCollectionId b.py collectionId) ≠ false ∧
        deleteDocument b collectionId docPath w =
          ({ w with tree := w.tree.unlink path, index := (removeDocument b w.writable collectionId docPath w.index).1 },
            (removeDocument b w.writable collectionId docPath w.index).2) := by
  unfold deleteDocument
  split
  · exact .inl ⟨_, rfl, rfl⟩
  · rename_i hwritable
    cases hpath : resolvePath b.py w.tree collectionId docPath with
    | none => exact .inl ⟨_, rfl, rfl⟩
    | some path =>
      dsimp only
      split
      · exact .inl ⟨_, rfl, rfl⟩
      · exact .inr ⟨path, rfl, hwritable, rfl⟩

end
end KnowledgeEdits
