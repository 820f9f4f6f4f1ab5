import TandemAgents.KnowledgeIndex

/-!
# Links between documents

The links are to be those the documents name as their sources. A document that is written
or removed takes the links of its citers along: they agree as long as no such document is
cited.
-/
namespace KnowledgeLinks

open KeyedTable PythonText JsonData KnowledgeText KnowledgeFiles KnowledgeIndex

set_option maxRecDepth 20000

section
variable (b : Backend)

/-- A link stands for a source that an indexed document names, and for nothing else. -/
def LinksMatch (ix : Index) : Prop :=
  ∀ source target, (source, target) ∈ ix.links ↔
    ∃ d, ix.documents.find? target = some d ∧ source ∈ d.sources b

/-- No other document names the document as its source. -/
def uncited (id : String) (ix : Index) : Bool :=
  ix.documents.rows.all fun d => decide (id ∈ d.sources b → d.docId = id)

variable {b} {ix : Index}

theorem uncited_iff {id : String} : uncited b id ix = true ↔
    ∀ target d, ix.documents.find? target = some d → id ∈ d.sources b → target = id := by
  unfold uncited
  rw [List.all_eq_true]
  constructor
  · intro h target d hd hsource
    obtain ⟨rfl, hmem⟩ := Table.find?_some hd
    exact of_decide_eq_true (h d hmem) hsource
  · intro h d hmem
    exact decide_eq_true fun hsource => h d.docId d (Table.mem_rows.mp hmem) hsource

/-! ## Statements -/

/-- Deleting the rows of a document keeps the agreement exactly if no other document cites it. -/
theorem deleteDocRows_match (h : LinksMatch b ix) (id : String) :
    LinksMatch b (deleteDocRows id ix) ↔ uncited b id ix = true := by
  rw [uncited_iff]
  constructor
  · intro hmatch target d hd hsource
    by_contra hne
    have hkept : (deleteDocRows id ix).documents.find? target = some d := by rw [find?_deleteDocRows, if_neg hne, hd]
    have hlink := (hmatch id target).mpr ⟨d, hkept, hsource⟩
    exact (mem_links_deleteDocRows.mp hlink).2.1 rfl
  · intro huncited source target
    rw [mem_links_deleteDocRows, h source target, find?_deleteDocRows]
    constructor
    · rintro ⟨⟨d, hd, hsource⟩, -, htarget⟩
      exact ⟨d, by rw [if_neg htarget, hd], hsource⟩
    · rintro ⟨d, hd, hsource⟩
      split at hd
      · cases hd
      · rename_i htarget
        refine ⟨⟨d, hd, hsource⟩, ?_, htarget⟩
        rintro rfl
        exact htarget (huncited target d hd hsource)

theorem mem_insertLink {link l : String × String} {links : List (String × String)} :
    l ∈ insertLink link links ↔ l = link ∨ l ∈ links := by
  unfold insertLink
  split
  · rename_i hmem
    constructor
    · exact .inr
    · rintro (rfl | h)
      · exact hmem
      · exact h
  · rw [List.mem_append, List.mem_singleton, or_comm]

/-- The links behind a refresh: those of the document are replaced. -/
theorem mem_links_refresh {id source target : String} {sources : List String} :
    (source, target) ∈ (refreshDocumentLinks id sources ix).links ↔
      if target = id then source ∈ sources else (source, target) ∈ ix.links := by
  have hfold : ∀ links : List (String × String),
      (source, target) ∈ sources.foldl (fun links s => insertLink (s, id) links) links ↔
        (target = id ∧ source ∈ sources) ∨ (source, target) ∈ links := by
    induction sources with
    | nil => simp
    | cons s sources ih =>
      intro links
      rw [List.foldl_cons, ih, mem_insertLink, Prod.mk.injEq, List.mem_cons]
      grind
  unfold refreshDocumentLinks
  rw [hfold, List.mem_filter]
  by_cases htarget : target = id
  · simp [htarget]
  · simp [htarget]

/-! ## One file -/

/-- A row that was not there comes with its links. -/
theorem insertDocument_match {d : Document} (hnone : ix.documents.find? d.docId = none)
    (hlinks : ∀ source, (source, d.docId) ∉ ix.links) :
    LinksMatch b (refreshDocumentLinks d.docId (d.sources b) (insertDocument d ix)) ↔ LinksMatch b ix := by
  have hfind : ∀ k, (refreshDocumentLinks d.docId (d.sources b) (insertDocument d ix)).documents.find? k =
      if k = d.docId then some d else ix.documents.find? k :=
    fun k => Table.find?_overwrite ix.documents d (fun _ => rfl) k
  have hlink : ∀ source target, (source, target) ∈
      (refreshDocumentLinks d.docId (d.sources b) (insertDocument d ix)).links ↔
        if target = d.docId then source ∈ d.sources b else (source, target) ∈ ix.links :=
    fun _ _ => mem_links_refresh
  refine forall₂_congr fun source target => ?_
  rw [hlink, hfind]
  by_cases htarget : target = d.docId
  · subst htarget
    simp [hnone, hlinks]
  · rw [if_neg htarget, if_neg htarget]

/-- What `sync_file` stores keeps the agreement exactly if no other document cites the one
that is replaced. -/
theorem storeDocument_match (h : LinksMatch b ix) (key : Key) (p : Path) (rawText : String) (loaded : Loaded) :
    LinksMatch b (storeDocument b key p rawText loaded ix).1 ↔
      ((ix.documents.find? (docIdOf key)).isSome → uncited b (docIdOf key) ix = true) := by
  obtain ⟨cleared, hcleared⟩ : ∃ cleared, cleared =
      if (ix.documents.find? (docIdOf key)).isSome then deleteDocRows (docIdOf key) ix else ix := ⟨_, rfl⟩
  have hclear : LinksMatch b cleared ↔
      ((ix.documents.find? (docIdOf key)).isSome → uncited b (docIdOf key) ix = true) := by
    rw [hcleared]
    split
    · rename_i hfound
      rw [deleteDocRows_match h]
      exact ⟨fun hu _ => hu, fun hu => hu hfound⟩
    · rename_i hfound
      exact ⟨fun _ hf => absurd hf hfound, fun _ => h⟩
  have hgone : cleared.documents.find? (docIdOf key) = none ∧ ∀ source, (source, docIdOf key) ∉ cleared.links := by
    rw [hcleared]
    split
    · simp
    · rename_i hfound
      have hnone := Option.not_isSome_iff_eq_none.mp hfound
      refine ⟨hnone, fun source hmem => ?_⟩
      obtain ⟨d, hd, -⟩ := (h source (docIdOf key)).mp hmem
      rw [hnone] at hd
      cases hd
  unfold storeDocument
  dsimp only
  rw [← hcleared, ← hclear]
  cases loaded with
  | dict frontmatter => exact insertDocument_match hgone.1 hgone.2
  | other | unencodable | raises => rfl

/-- The document whose rows `sync_file` deletes, to write them anew. -/
def rewritten (b : Backend) (t : Tree) (p : Path) (ix : Index) : Option String :=
  if t.existsAt p = false then none
  else
    match keyOf b.py p with
    | none => none
    | some key =>
      match (t.find? p).bind File.readText with
      | none => none
      | some rawText =>
        match frontmatterOf b rawText with
        | .raises => none
        | _ =>
          match ix.documents.find? (docIdOf key) with
          | none => none
          | some d => if d.contentHash = b.sha256 rawText then none else some (docIdOf key)

/-- What a call of `sync_file` does to the index. -/
theorem syncFile_cases (t : Tree) (p : Path) (ix : Index) :
    ((syncFile b t p ix).1 = ix ∧ rewritten b t p ix = none) ∨
      ∃ key rawText loaded, syncFile b t p ix = storeDocument b key p rawText loaded ix ∧
        rewritten b t p ix = (ix.documents.find? (docIdOf key)).map fun _ => docIdOf key := by
  unfold syncFile rewritten
  split
  · exact .inl ⟨rfl, rfl⟩
  · cases keyOf b.py p with
    | none => exact .inl ⟨rfl, rfl⟩
    | some key =>
      cases (t.find? p).bind File.readText with
      | none => exact .inl ⟨rfl, rfl⟩
      | some rawText =>
        dsimp only
        cases hload : frontmatterOf b rawText with
        | raises => exact .inl ⟨rfl, rfl⟩
        | dict _ | other | unencodable =>
          dsimp only
          cases hd : ix.documents.find? (docIdOf key) with
          | none => exact .inr ⟨key, rawText, _, if_neg (by simp), by rw [hd]; rfl⟩
          | some d =>
            by_cases hhash : d.contentHash = b.sha256 rawText
            · simp [hhash]
            · refine .inr ⟨key, rawText, _, if_neg ?_, ?_⟩
              · simpa using hhash
              · rw [hd]
                simp [hhash]

/-- `sync_file` keeps the agreement exactly if it rewrites no document that another one cites. -/
theorem syncFile_match (h : LinksMatch b ix) (t : Tree) (p : Path) :
    LinksMatch b (syncFile b t p ix).1 ↔ (rewritten b t p ix).all (fun id => uncited b id ix) = true := by
  obtain ⟨hsame, hnone⟩ | ⟨key, rawText, loaded, hrun, hid⟩ := syncFile_cases (b := b) t p ix
  · rw [hsame, hnone]
    exact ⟨fun _ => rfl, fun _ => h⟩
  · rw [hrun, storeDocument_match h, hid]
    cases ix.documents.find? (docIdOf key) <;> simp

/-! ## All files -/

/-- The loop over the files rewrites no document that another one cites at that time. -/
def sparesFiles (b : Backend) (t : Tree) (filter : Option String) : List File → Index → Bool
  | [], _ => true
  | f :: fs, ix =>
    if isDocument b.py f.path = false ∨ f.path.length < 2 ∨ inCollection b filter (f.path.headD "") = false then
      sparesFiles b t filter fs ix
    else
      (rewritten b t f.path ix).all (fun id => uncited b id ix) &&
        match syncFile b t f.path ix with
        | (ix, .ok _) => sparesFiles b t filter fs ix
        | (_, .error _) => true

theorem syncFiles_match (t : Tree) (filter : Option String) (fs : List File) (counts : Counts) (seen : List String)
    (h : LinksMatch b ix) (hspares : sparesFiles b t filter fs ix = true) :
    LinksMatch b (syncFiles b t filter fs counts seen ix).1 := by
  induction fs generalizing counts seen ix with
  | nil => exact h
  | cons f fs ih =>
    rw [sparesFiles] at hspares
    rw [syncFiles]
    split
    · rename_i hdocument
      rw [if_pos (.inl hdocument)] at hspares
      exact ih counts seen h hspares
    · rename_i hdocument
      split
      · rename_i hlength
        rw [if_pos (.inr (.inl hlength))] at hspares
        exact ih _ seen h hspares
      · rename_i hlength
        split
        · rename_i hcollection
          rw [if_pos (.inr (.inr hcollection))] at hspares
          exact ih counts seen h hspares
        · rename_i hcollection
          have hmine : ¬ (isDocument b.py f.path = false ∨ f.path.length < 2 ∨
              inCollection b filter (f.path.headD "") = false) := by
            rintro (h | h | h)
            · exact hdocument h
            · exact hlength h
            · exact hcollection h
          rw [if_neg hmine, Bool.and_eq_true] at hspares
          obtain ⟨hfile, hrest⟩ := hspares
          have hstep := (syncFile_match h t f.path).mpr hfile
          cases hsync : syncFile b t f.path ix with
          | mk ix' outcome =>
            rw [hsync] at hrest hstep
            cases outcome with
            | error e => exact hstep
            | ok action => exact ih _ _ hstep hrest

/-- Deleting many documents keeps the agreement exactly if none of those that stay cites one
of them. -/
theorem foldl_deleteDocRows_match (h : LinksMatch b ix) (ds : List Document) :
    LinksMatch b (ds.foldl (fun ix d => deleteDocRows d.docId ix) ix) ↔
      ∀ target d, ix.documents.find? target = some d → target ∉ ds.map Document.docId →
        ∀ g ∈ ds, g.docId ∉ d.sources b := by
  obtain ⟨hfind, hlinks⟩ := foldl_deleteDocRows ds ix
  constructor
  · intro hmatch target d hd hstays g hg hsource
    have hkept : (ds.foldl (fun ix d => deleteDocRows d.docId ix) ix).documents.find? target = some d := by
      rw [hfind, if_neg hstays, hd]
    have hlink := (hmatch g.docId target).mpr ⟨d, hkept, hsource⟩
    exact ((hlinks _ _).mp hlink).2.1 (List.mem_map_of_mem hg)
  · intro hstays source target
    rw [hlinks, hfind, h source target]
    constructor
    · rintro ⟨⟨d, hd, hsource⟩, -, htarget⟩
      exact ⟨d, by rw [if_neg htarget, hd], hsource⟩
    · rintro ⟨d, hd, hsource⟩
      split at hd
      · cases hd
      · rename_i htarget
        refine ⟨⟨d, hd, hsource⟩, ?_, htarget⟩
        intro hmem
        obtain ⟨g, hg, rfl⟩ := List.mem_map.mp hmem
        exact hstays target d hd htarget g hg hsource

/-- The loop over the rows deletes no document that one that stays cites. -/
def sparesRows (b : Backend) (t : Tree) (outside : String → Bool) (filter : Option String) (seen : List String)
    (ix : Index) : Bool :=
  ix.documents.rows.all fun d => isGone b t outside filter seen d ||
    (ix.documents.rows.filter (isGone b t outside filter seen)).all fun g => decide (g.docId ∉ d.sources b)

theorem pruneRows_match (h : LinksMatch b ix) (t : Tree) (outside : String → Bool) (filter : Option String)
    (seen : List String) (counts : Counts) (hspares : sparesRows b t outside filter seen ix = true) :
    LinksMatch b (pruneRows b t outside filter seen ix.documents.rows counts ix).1 := by
  rw [pruneRows_index, foldl_deleteDocRows_match h]
  intro target d hd hstays g hg
  obtain ⟨hid, hmem⟩ := Table.find?_some hd
  have hd := List.all_eq_true.mp hspares d hmem
  rw [Bool.or_eq_true] at hd
  obtain hgone | hspared := hd
  · exact absurd (List.mem_map.mpr ⟨d, List.mem_filter.mpr ⟨hmem, hgone⟩, hid⟩) hstays
  · exact of_decide_eq_true (List.all_eq_true.mp hspared g hg)

/-- The document whose rows `remove_document` deletes. -/
def removed (b : Backend) (writable : String → Bool) (collectionId docPath : String) (ix : Index) : Option String :=
  let collectionId := normalizeCollectionId b.py collectionId
  let docPath := normalizeDocPath b.py docPath
  let docId := collectionDocumentId b.py collectionId docPath
  if collectionId = "" ∨ docPath = "" ∨ writable collectionId = false then none
  else (ix.documents.find? docId).map fun _ => docId

theorem removeDocument_match (h : LinksMatch b ix) (writable : String → Bool) (collectionId docPath : String) :
    LinksMatch b (removeDocument b writable collectionId docPath ix).1 ↔
      (removed b writable collectionId docPath ix).all (fun id => uncited b id ix) = true := by
  unfold removeDocument removed
  dsimp only
  split
  · rename_i hempty
    rw [if_pos (.inl hempty)]
    exact ⟨fun _ => rfl, fun _ => h⟩
  · rename_i hcollection
    split
    · rename_i hempty
      rw [if_pos (.inr (.inl hempty))]
      exact ⟨fun _ => rfl, fun _ => h⟩
    · rename_i hpath
      split
      · rename_i hrefused
        rw [if_pos (.inr (.inr hrefused))]
        exact ⟨fun _ => rfl, fun _ => h⟩
      · rename_i hwritable
        have hproceeds : ¬ (normalizeCollectionId b.py collectionId = "" ∨ normalizeDocPath b.py docPath = "" ∨
            writable (normalizeCollectionId b.py collectionId) = false) := by
          rintro (h | h | h)
          · exact hcollection h
          · exact hpath h
          · exact hwritable h
        rw [if_neg hproceeds]
        cases ix.documents.find? (collectionDocumentId b.py (normalizeCollectionId b.py collectionId)
            (normalizeDocPath b.py docPath)) with
        | none => exact ⟨fun _ => rfl, fun _ => h⟩
        | some d => exact deleteDocRows_match h _

end

/-! ## Runs -/

/-- The calls, and a change of the files by anyone. -/
inductive Call where
  | syncFile (p : Path)
  | removeDocument (collectionId docPath : String)
  | syncFromDisk (filter : Option String)
  | change (tree : Tree) (outside writable : String → Bool)

section
variable (b : Backend)

def Call.run : Call → World → World
  | .syncFile p, w => { w with index := (KnowledgeIndex.syncFile b w.tree p w.index).1 }
  | .removeDocument collectionId docPath, w =>
    { w with index := (KnowledgeIndex.removeDocument b w.writable collectionId docPath w.index).1 }
  | .syncFromDisk filter, w => { w with index := (KnowledgeIndex.syncFromDisk b w.tree w.outside filter w.index).1 }
  | .change tree outside writable, w => ⟨tree, outside, writable, w.index⟩

/-- The call deletes the rows of no document that another indexed document names as its source. -/
def Call.spares : Call → World → Bool
  | .syncFile p, w => (rewritten b w.tree p w.index).all (fun id => uncited b id w.index)
  | .removeDocument collectionId docPath, w =>
    (removed b w.writable collectionId docPath w.index).all (fun id => uncited b id w.index)
  | .syncFromDisk filter, w =>
    sparesFiles b w.tree filter w.tree.files w.index &&
      match syncFiles b w.tree filter w.tree.files Counts.zero [] w.index with
      | (ix, .ok (_, seen)) => sparesRows b w.tree w.outside filter seen ix
      | (_, .error _) => true
  | .change _ _ _, _ => true

/-- The states between the calls. -/
def states : List Call → World → List World
  | [], w => [w]
  | c :: cs, w => w :: states cs (c.run b w)

def spared : List Call → World → Bool
  | [], _ => true
  | c :: cs, w => c.spares b w && spared cs (c.run b w)

end

variable {b : Backend}

theorem Call.run_match (c : Call) {w : World} (h : LinksMatch b w.index) (hspares : c.spares b w = true) :
    LinksMatch b (c.run b w).index := by
  cases c with
  | syncFile p =>
    simp only [Call.spares] at hspares
    simp only [Call.run]
    exact (syncFile_match h w.tree p).mpr hspares
  | removeDocument collectionId docPath =>
    simp only [Call.spares] at hspares
    simp only [Call.run]
    exact (removeDocument_match h w.writable collectionId docPath).mpr hspares
  | syncFromDisk filter =>
    simp only [Call.spares, Bool.and_eq_true] at hspares
    obtain ⟨hfiles, hrows⟩ := hspares
    have hloop := syncFiles_match w.tree filter w.tree.files Counts.zero [] h hfiles
    simp only [Call.run, KnowledgeIndex.syncFromDisk]
    cases hsync : syncFiles b w.tree filter w.tree.files Counts.zero [] w.index with
    | mk ix outcome =>
      rw [hsync] at hloop hrows
      cases outcome with
      | error e => exact hloop
      | ok result => exact pruneRows_match hloop w.tree w.outside filter result.2 result.1 hrows
  | change tree outside writable => exact h

theorem states_match (calls : List Call) {w : World} (h : LinksMatch b w.index) (hspared : spared b calls w = true) :
    ∀ w' ∈ states b calls w, LinksMatch b w'.index := by
  induction calls generalizing w with
  | nil =>
    intro w' hw'
    rw [List.mem_singleton.mp hw']
    exact h
  | cons c cs ih =>
    rw [spared, Bool.and_eq_true] at hspared
    obtain ⟨hc, hcs⟩ := hspared
    intro w' hw'
    obtain rfl | hw' := List.mem_cons.mp hw'
    · exact h
    · exact ih (c.run_match h hc) hcs w' hw'

/-- From the empty index on, the links are the sources the documents name as long as no call
deletes the rows of a document that another one names. -/
theorem links_match (b : Backend) (tree : Tree) (outside writable : String → Bool) (calls : List Call)
    (hspared : spared b calls ⟨tree, outside, writable, Index.empty⟩ = true) :
    ∀ w ∈ states b calls ⟨tree, outside, writable, Index.empty⟩, LinksMatch b w.index := by
  refine states_match calls ?_ hspared
  intro source target
  simp [Index.empty]

/-! ## One citer -/

/-- The texts of two documents, the second of which names the first, and new versions of both. -/
def sourceText : String := "A"
def sourceText' : String := "A2"
def citerText : String := "---\nkb_source_docs: a\n---\nB"
def citerText' : String := "---\nkb_source_docs: a\n---\nB2"

def sampleBackend : Backend where
  py := asciiPython
  sha256 text :=
    if text = sourceText then "559aead08264d5795d3909718cdd05abd49572e84fe55590eef31a88a08fdffd"
    else if text = sourceText' then "c8361f9b468e68c86da024270e0949ce139cb704b8d7cce586681b99f3a7ea56"
    else if text = citerText then "721c51ea1b3b0492d4bb93887f38be6a79014d6e87adc5bc50e662573cb1cc7c"
    else if text = citerText' then "d19bbb8ee02a7f0fe4d1b1702407d89425685c4262a02ee5c6a71c1f5d307589"
    else ""
  safeLoad source := if source = "kb_source_docs: a" then .dict [("kb_source_docs", .str "a")] else .other

/-- Two files of the collection `acme`. -/
def sampleTree (source citer : String) : Tree where
  files := [⟨["acme", "a.md"], some source⟩, ⟨["acme", "b.md"], some citer⟩]
  directories := [["acme"]]
  sorted := by
    have hlt : (["acme", "a.md"] : Path) < ["acme", "b.md"] := by decide +kernel
    exact List.pairwise_pair.mpr hlt

def anyone : String → Bool := fun _ => true

def start : World := ⟨sampleTree sourceText citerText, anyone, anyone, Index.empty⟩

/-- Both files are indexed, then one of them changes and is indexed again. -/
def history (source citer : String) (p : Path) : List Call :=
  [.syncFromDisk none, .change (sampleTree source citer) anyone anyone, .syncFile p]

/-- Nobody cites the citer: its link stays when it is written anew. -/
theorem citer_rewritten : ∃ w ∈ states sampleBackend (history sourceText citerText' ["acme", "b.md"]) start,
    w.index.links.length = 1 ∧ LinksMatch sampleBackend w.index := by
  obtain ⟨w, hw, hlinks⟩ : ∃ w ∈ states sampleBackend (history sourceText citerText' ["acme", "b.md"]) start,
      w.index.links.length = 1 := ⟨_, List.mem_of_getLast? rfl, by decide +kernel⟩
  exact ⟨w, hw, hlinks, links_match sampleBackend (sampleTree sourceText citerText) anyone anyone _ (by decide +kernel) w hw⟩

/-- The source is written anew, and the link of its citer is gone. -/
theorem source_rewritten : ∃ w ∈ states sampleBackend (history sourceText' citerText ["acme", "a.md"]) start,
    ¬ LinksMatch sampleBackend w.index := by
  obtain ⟨w, hw, hlinks, hsources⟩ : ∃ w ∈ states sampleBackend (history sourceText' citerText ["acme", "a.md"]) start,
      w.index.links = [] ∧
        (w.index.documents.find? "acme/b").map (fun d => d.sources sampleBackend) = some ["acme/a"] :=
    ⟨_, List.mem_of_getLast? rfl, by decide +kernel, by decide +kernel⟩
  refine ⟨w, hw, fun hmatch => ?_⟩
  obtain ⟨d, hd, hcites⟩ := Option.map_eq_some_iff.mp hsources
  have hlink := (hmatch "acme/a" "acme/b").mpr ⟨d, hd, by rw [hcites]; exact List.mem_singleton_self _⟩
  rw [hlinks] at hlink
  cases hlink

end KnowledgeLinks
