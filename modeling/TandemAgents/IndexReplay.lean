import TandemAgents.DocumentRows
import TandemAgents.KnowledgeMirror

/-!
# What a sync makes of the rows of a document

A sync comes past the files of a document one by one. The rows are those of the last file that was
found with another hash, or what they were before; the links go that lead from documents whose rows
were replaced or deleted after that. Both can be told from the texts and the hashes alone.
-/
namespace IndexReplay

open KeyedTable PythonText JsonData KnowledgeText KnowledgeFiles KnowledgeTables DocumentRows
open KnowledgeIndex hiding syncFile syncFiles pruneRows syncFromDisk pruneRows_index
open KnowledgeMirror hiding syncFiles_spec syncFromDisk_spec

set_option maxRecDepth 20000

/-! ## The trace of a document -/

/-- The hashes of the listed documents. -/
def hashes (t : Tables) (docId : String) : Option String := (t.index.documents.find? docId).map Document.contentHash

/-- The file a document was written from last, and the documents whose links to it went after
that. -/
structure Trace where
  writer : Option File := none
  dropped : List String := []

/-- The hashes behind a file. -/
def stored (H : String → Option String) (docId hash : String) : String → Option String :=
  fun other => if other = docId then some hash else H other

section
variable (b : Backend) (r : Reader)

/-- The trace behind a file with this text, of the document `own`. -/
def Trace.next (own : Key) (H : String → Option String) (f : File) (key : Key) (rawText : String) (tr : Trace) : Trace :=
  if H (docIdOf key) = some (b.sha256 rawText) then tr
  else if key = own then ⟨some f, []⟩
  else if (H (docIdOf key)).isSome then { tr with dropped := tr.dropped ++ [docIdOf key] }
  else tr

/-- The trace of a document through files. -/
def replay (own : Key) : (String → Option String) → List File → Trace → Trace
  | _, [], tr => tr
  | H, f :: fs, tr =>
    match fileKey b f, f.readText with
    | some key, some rawText =>
      replay own (stored H (docIdOf key) (b.sha256 rawText)) fs (tr.next b own H f key rawText)
    | _, _ => replay own H fs tr

/-- The rows of a document written from a file. -/
def rowsFrom (key : Key) (f : File) : DocRows :=
  match f.readText.map fun rawText => (rawText, frontmatterOf b rawText) with
  | some (rawText, .dict frontmatter) => written b r key f.path rawText frontmatter
  | _ => ⟨none, [], fun _ => false⟩

/-- The rows a trace comes to, from rows that were there. -/
def Trace.rows (key : Key) (before : DocRows) (tr : Trace) : DocRows :=
  ((tr.writer.map (rowsFrom b r key)).getD before).without tr.dropped

/-- No file is listed for the id. -/
def unlisted (tree : Tree) (docId : String) : Bool :=
  tree.files.all fun f => decide ((fileKey b f).map docIdOf ≠ some docId)

/-- The document is deleted by the next sync. -/
def gone (tree : Tree) (outside : String → Bool) (t : Tables) (docId : String) : Bool :=
  (t.index.documents.find? docId).any fun d => unlisted b tree docId && !d.sourcePath.present tree outside

end

section
variable {b : Backend} {r : Reader} {tree : Tree} {t : Tables} {own : Key}

/-! ## One file -/

theorem rowsFrom_read {key : Key} {f : File} {rawText : String} {frontmatter : Dict} (hread : f.readText = some rawText)
    (hload : frontmatterOf b rawText = .dict frontmatter) :
    rowsFrom b r key f = written b r key f.path rawText frontmatter := by
  unfold rowsFrom
  rw [hread, Option.map_some, hload]

/-- The statements for a file that can be read. -/
theorem fileStatements_read {f : File} (hf : f ∈ tree.files) {key : Key} (hkey : fileKey b f = some key)
    {rawText : String} {frontmatter : Dict} (hread : f.readText = some rawText)
    (hload : frontmatterOf b rawText = .dict frontmatter) :
    fileStatements b r tree f.path t =
      if hashes t (docIdOf key) = some (b.sha256 rawText) then ([], .ok (.unchanged (docIdOf key)))
      else storeStatements b r key f.path rawText (.dict frontmatter) t := by
  unfold fileStatements
  rw [Tree.existsAt_of_mem hf, if_neg (by simp), (fileKey_some hkey).2.1, Tree.find?_of_mem hf, Option.bind_some, hread]
  dsimp only
  rw [hload]
  rfl

/-- What a file that can be read does to the rows of the documents. -/
structure Filed (b : Backend) (r : Reader) (key : Key) (f : File) (rawText : String) (t t' : Tables) : Prop where
  coherent : Coherent t'
  same : hashes t (docIdOf key) = some (b.sha256 rawText) → t' = t
  own : hashes t (docIdOf key) ≠ some (b.sha256 rawText) → rowsOf (docIdOf key) t' = rowsFrom b r key f
  others : ∀ other, other ≠ docIdOf key → rowsOf other t' =
    (rowsOf other t).without (if hashes t (docIdOf key) = some (b.sha256 rawText) then [] else replaced (docIdOf key) t)

theorem syncFile_filed (h : Coherent t) {f : File} (hf : f ∈ tree.files) {key : Key} (hkey : fileKey b f = some key)
    (hreadable : Readable b f) :
    ∃ rawText t' action, f.readText = some rawText ∧ syncFile b r tree f.path t = (t', .ok action) ∧
      action.docId = some (docIdOf key) ∧ Filed b r key f rawText t t' := by
  obtain ⟨rawText, frontmatter, hread, hload⟩ := hreadable
  refine ⟨rawText, (syncFile b r tree f.path t).1, ?_⟩
  have hstatements := fileStatements_read (r := r) (t := t) hf hkey hread hload
  unfold syncFile
  rw [hstatements]
  by_cases hhash : hashes t (docIdOf key) = some (b.sha256 rawText)
  · rw [if_pos hhash]
    refine ⟨_, hread, rfl, rfl, h, fun _ => rfl, fun hno => absurd hhash hno, fun other _ => ?_⟩
    rw [if_pos hhash, DocRows.without_nil]
    rfl
  · rw [if_neg hhash]
    obtain ⟨hcoherent, hown, hothers⟩ := storeStatements_rows (b := b) (r := r) h key f.path rawText frontmatter
    refine ⟨_, hread, rfl, ?_, hcoherent, fun hyes => absurd hyes hhash, fun _ => ?_, fun other hother => ?_⟩
    · split <;> rfl
    · exact hown.trans (rowsFrom_read hread hload).symm
    · rw [if_neg hhash]
      exact hothers other hother

/-- The hash of every document behind a file. -/
theorem Filed.hashes {key : Key} {f : File} {rawText : String} {t' : Tables} (h : Filed b r key f rawText t t')
    (hread : f.readText = some rawText) (hreadable : Readable b f) :
    IndexReplay.hashes t' = stored (IndexReplay.hashes t) (docIdOf key) (b.sha256 rawText) := by
  funext other
  unfold stored
  by_cases hother : other = docIdOf key
  · rw [if_pos hother, hother]
    by_cases hhash : IndexReplay.hashes t (docIdOf key) = some (b.sha256 rawText)
    · rw [h.same hhash, hhash]
    · obtain ⟨rawText', frontmatter, hread', hload⟩ := hreadable
      obtain rfl := Option.some.inj (hread.symm.trans hread')
      have hown := (h.own hhash).trans (rowsFrom_read hread hload)
      exact congrArg (fun rows : DocRows => rows.document.map Document.contentHash) hown
  · rw [if_neg hother]
    exact congrArg (fun rows : DocRows => rows.document.map Document.contentHash) (h.others other hother)

/-- The trace tells the rows behind a file. -/
theorem Filed.rows {key : Key} {f : File} {rawText : String} {t' : Tables} (h : Filed b r key f rawText t t')
    (hslug : Slug own.1) (hslug' : Slug key.1) {before : DocRows} {tr : Trace}
    (hrows : rowsOf (docIdOf own) t = tr.rows b r own before) :
    rowsOf (docIdOf own) t' = (tr.next b own (IndexReplay.hashes t) f key rawText).rows b r own before := by
  unfold Trace.next
  by_cases hhash : IndexReplay.hashes t (docIdOf key) = some (b.sha256 rawText)
  · rw [if_pos hhash, h.same hhash, hrows]
  · rw [if_neg hhash]
    by_cases hkey : key = own
    · rw [if_pos hkey]
      subst hkey
      exact (h.own hhash).trans (DocRows.without_nil _).symm
    · rw [if_neg hkey]
      have hother : docIdOf own ≠ docIdOf key := fun heq => hkey (docIdOf_inj hslug' hslug heq.symm)
      rw [h.others _ hother, if_neg hhash, hrows, replaced]
      unfold IndexReplay.hashes
      cases t.index.documents.find? (docIdOf key) with
      | none => exact DocRows.without_nil _
      | some d => exact DocRows.without_append _ _ _

/-! ## All files -/

theorem syncFiles_skip {f : File} (hf : f ∈ tree.files) (hkey : fileKey b f = none) (fs : List File) (counts : Counts)
    (seen : List String) (t : Tables) :
    ∃ counts', syncFiles b r tree none (f :: fs) counts seen t = syncFiles b r tree none fs counts' seen t := by
  rw [syncFiles]
  split
  · exact ⟨counts, rfl⟩
  · rename_i hdocument
    split
    · exact ⟨_, rfl⟩
    · rw [if_neg (by simp [inCollection])]
      rw [Bool.not_eq_false] at hdocument
      rw [fileKey, if_pos hdocument] at hkey
      have hignored : syncFile b r tree f.path t = (t, .ok .ignored) := by
        unfold syncFile fileStatements
        rw [Tree.existsAt_of_mem hf, if_neg (by simp), hkey]
        rfl
      rw [hignored]
      exact ⟨counts.add .ignored, by simp [Action.docId]⟩

theorem syncFiles_listed {f : File} {key : Key} (hkey : fileKey b f = some key) (fs : List File) (counts : Counts)
    (seen : List String) (t : Tables) :
    syncFiles b r tree none (f :: fs) counts seen t =
      match syncFile b r tree f.path t with
      | (t, .error e) => (t, .error e)
      | (t, .ok action) => syncFiles b r tree none fs (counts.add action) (seen ++ action.docId.toList) t := by
  obtain ⟨hdocument, -, hlength⟩ := fileKey_some hkey
  rw [syncFiles, if_neg (by simp [hdocument]), if_neg hlength, if_neg (by simp [inCollection])] <;> rfl

/-- What a loop over files does to the tables. -/
structure Walked (b : Backend) (r : Reader) (fs : List File) (seen seen' : List String) (t t' : Tables) : Prop where
  coherent : Coherent t'
  rows : ∀ own : Key, Slug own.1 → ∀ before tr, rowsOf (docIdOf own) t = Trace.rows b r own before tr →
    rowsOf (docIdOf own) t' = (replay b own (hashes t) fs tr).rows b r own before
  others : ∀ id, (∀ f ∈ fs, (fileKey b f).map docIdOf ≠ some id) → t'.index.documents.find? id = t.index.documents.find? id
  seen : ∀ id, id ∈ seen' ↔ id ∈ seen ∨ ∃ f ∈ fs, (fileKey b f).map docIdOf = some id

/-- The loop over files that can be read returns. -/
theorem syncFiles_walked (fs : List File) (hfs : ∀ f ∈ fs, f ∈ tree.files)
    (hreadable : ∀ f ∈ fs, ∀ key, fileKey b f = some key → Readable b f) (counts : Counts) (seen : List String)
    (h : Coherent t) :
    ∃ t' counts' seen', syncFiles b r tree none fs counts seen t = (t', .ok (counts', seen')) ∧
      Walked b r fs seen seen' t t' := by
  induction fs generalizing counts seen t with
  | nil => exact ⟨t, counts, seen, rfl, h, fun _ _ _ _ hrows => hrows, fun _ _ => rfl, by simp⟩
  | cons f fs ih =>
    have hfile := hfs f List.mem_cons_self
    have hrest : ∀ g ∈ fs, g ∈ tree.files := fun g hg => hfs g (List.mem_cons_of_mem f hg)
    have hreads : ∀ g ∈ fs, ∀ key, fileKey b g = some key → Readable b g :=
      fun g hg => hreadable g (List.mem_cons_of_mem f hg)
    cases hkey : fileKey b f with
    | none =>
      obtain ⟨counts₁, hskip⟩ := syncFiles_skip (r := r) hfile hkey fs counts seen t
      obtain ⟨t', counts', seen', hrun, hwalked⟩ := ih hrest hreads counts₁ seen h
      refine ⟨t', counts', seen', hskip.trans hrun, hwalked.coherent, ?_, ?_, ?_⟩
      · intro own hslug before tr hrows
        rw [replay, hkey]
        exact hwalked.rows own hslug before tr hrows
      · exact fun id hid => hwalked.others id fun g hg => hid g (List.mem_cons_of_mem f hg)
      · intro id
        rw [hwalked.seen id]
        simp [hkey]
    | some key =>
      have hreadf := hreadable f List.mem_cons_self key hkey
      obtain ⟨rawText, t₁, action, hread, hsync, hid, hfiled⟩ := syncFile_filed (r := r) h hfile hkey hreadf
      obtain ⟨t', counts', seen', hrun, hwalked⟩ :=
        ih hrest hreads (counts.add action) (seen ++ action.docId.toList) hfiled.coherent
      refine ⟨t', counts', seen', ?_, hwalked.coherent, ?_, ?_, ?_⟩
      · rw [syncFiles_listed hkey, hsync]
        exact hrun
      · intro own hslug before tr hrows
        have hnext := hwalked.rows own hslug before _ (hfiled.rows hslug (fileKey_slug hkey) hrows)
        rw [hfiled.hashes hread hreadf] at hnext
        rw [replay, hkey, hread]
        exact hnext
      · intro id hid'
        rw [hwalked.others id fun g hg => hid' g (List.mem_cons_of_mem f hg)]
        have hne : id ≠ docIdOf key := by
          rintro rfl
          exact hid' f List.mem_cons_self (by rw [hkey]; rfl)
        exact congrArg DocRows.document (hfiled.others id hne)
      · intro id
        have hhead : (fileKey b f).map docIdOf = some id ↔ id = docIdOf key := by
          rw [hkey, Option.map_some, Option.some.injEq, eq_comm]
        rw [hwalked.seen id, hid, Option.toList_some, List.mem_append, List.mem_singleton, or_assoc]
        simp only [List.mem_cons, exists_eq_or_imp, hhead]

/-! ## The whole sync -/

/-- The loop over the rows takes from a document that stays the links from those that go. -/
theorem pruneRows_rows (outside : String → Bool) (seen : List String) (ds : List Document) (counts : Counts)
    (h : Coherent t) {id : String} (hid : id ∉ (ds.filter (isGone b tree outside none seen)).map Document.docId) :
    Coherent (pruneRows b tree outside none seen ds counts t).1 ∧
      rowsOf id (pruneRows b tree outside none seen ds counts t).1 =
        (rowsOf id t).without ((ds.filter (isGone b tree outside none seen)).map Document.docId) := by
  induction ds generalizing counts t with
  | nil => exact ⟨h, (DocRows.without_nil _).symm⟩
  | cons d ds ih =>
    rw [pruneRows]
    by_cases hgone : isGone b tree outside none seen d = true
    · rw [List.filter_cons_of_pos hgone, List.map_cons] at hid ⊢
      rw [List.mem_cons, not_or] at hid
      obtain ⟨hcoherent, hrows⟩ := ih (counts.add (.deleted d.docId)) (h.clear d.docId) hid.2
      rw [if_pos hgone, run_deletions, hrows, rowsOf_clear h hid.1, DocRows.without_append]
      exact ⟨hcoherent, rfl⟩
    · rw [List.filter_cons_of_neg hgone] at hid ⊢
      rw [if_neg hgone]
      exact ih counts h hid

theorem unlisted_iff {id : String} : unlisted b tree id = true ↔ ∀ f ∈ tree.files, (fileKey b f).map docIdOf ≠ some id := by
  simp [unlisted]

/-- The rows of a document that has a file, behind a sync. -/
theorem syncFromDisk_rows (outside : String → Bool) (h : Coherent t)
    (hreadable : ∀ f ∈ tree.files, ∀ key, fileKey b f = some key → Readable b f)
    {own : Key} (hown : ∃ f ∈ tree.files, fileKey b f = some own) :
    ∃ t' counts, syncFromDisk b r tree outside none t = (t', .ok counts) ∧ Coherent t' ∧
      rowsOf (docIdOf own) t' =
        ((replay b own (hashes t) tree.files {}).rows b r own (rowsOf (docIdOf own) t)).keep
          fun source => !gone b tree outside t source := by
  obtain ⟨t₁, counts₁, seen, hrun, hwalked⟩ :=
    syncFiles_walked (r := r) tree.files (fun _ hf => hf) hreadable Counts.zero [] h
  obtain ⟨f, hf, hkey⟩ := hown
  have hrows := hwalked.rows own (fileKey_slug hkey) (rowsOf (docIdOf own) t) {} (DocRows.without_nil _).symm
  have hseen (id : String) : id ∈ seen ↔ unlisted b tree id = false := by
    rw [hwalked.seen id, ← Bool.not_eq_true, unlisted_iff]
    simp
  -- what the second loop deletes
  have hgone (id : String) : id ∈ (t₁.index.documents.rows.filter (isGone b tree outside none seen)).map Document.docId ↔
      gone b tree outside t id = true := by
    have hisGone (d : Document) : isGone b tree outside none seen d =
        (unlisted b tree d.docId && !d.sourcePath.present tree outside) := by
      rw [isGone_none, Bool.eq_iff_iff]
      simp [hseen]
    have hfind : unlisted b tree id = true → t₁.index.documents.find? id = t.index.documents.find? id :=
      fun hunlisted => hwalked.others id (unlisted_iff.mp hunlisted)
    unfold gone
    rw [List.mem_map, Option.any_eq_true]
    constructor
    · rintro ⟨d, hd, rfl⟩
      obtain ⟨hmem, hd⟩ := List.mem_filter.mp hd
      rw [hisGone] at hd
      refine ⟨d, ?_, hd⟩
      rw [← hfind (Bool.and_eq_true_iff.mp hd).1]
      exact Table.mem_rows.mp hmem
    · rintro ⟨d, hd, hdgone⟩
      rw [← hfind (Bool.and_eq_true_iff.mp hdgone).1] at hd
      have hid := Table.find?_key hd
      refine ⟨d, List.mem_filter.mpr ⟨Table.mem_rows.mpr (hid.symm ▸ hd), ?_⟩, hid⟩
      rw [hisGone, hid]
      exact hdgone
  have hstays : docIdOf own ∉ (t₁.index.documents.rows.filter (isGone b tree outside none seen)).map Document.docId := by
    rw [hgone, gone, Option.any_eq_true]
    rintro ⟨d, -, hd⟩
    have hunlisted := unlisted_iff.mp (Bool.and_eq_true_iff.mp hd).1 f hf
    rw [hkey] at hunlisted
    exact hunlisted rfl
  obtain ⟨hcoherent, hpruned⟩ := pruneRows_rows outside seen t₁.index.documents.rows counts₁ hwalked.coherent hstays
  refine ⟨(pruneRows b tree outside none seen t₁.index.documents.rows counts₁ t₁).1,
    (pruneRows b tree outside none seen t₁.index.documents.rows counts₁ t₁).2, ?_, hcoherent, ?_⟩
  · unfold syncFromDisk
    rw [hrun]
  · rw [hpruned, hrows]
    refine DocRows.ext rfl rfl (funext fun source => ?_)
    refine congrArg (_ && ·) ?_
    rw [Bool.eq_iff_iff, decide_eq_true_eq, hgone]
    simp

/-! ## Who writes -/

/-- Every file of the document has this hash. -/
def allHashed (b : Backend) (own : Key) (hash : Option String) (fs : List File) : Prop :=
  ∀ f ∈ fs, fileKey b f = some own → f.readText.map b.sha256 = hash

/-- Whether two hash tables tell the same of the other documents. -/
def AgreeElsewhere (own : Key) (H H' : String → Option String) : Prop := ∀ id, id ≠ docIdOf own → H id = H' id

variable {H : String → Option String} {tr : Trace}

/-- A document whose files all have its hash is passed over. -/
theorem writer_of_allHashed (hslug : Slug own.1) {fs : List File} (hread : ∀ f ∈ fs, (fileKey b f).isSome → f.readText.isSome)
    (h : allHashed b own (H (docIdOf own)) fs) : (replay b own H fs tr).writer = tr.writer := by
  induction fs generalizing H tr with
  | nil => rfl
  | cons f fs ih =>
    have hreads : ∀ g ∈ fs, (fileKey b g).isSome → g.readText.isSome := fun g hg => hread g (List.mem_cons_of_mem f hg)
    have hrest : allHashed b own (H (docIdOf own)) fs := fun g hg => h g (List.mem_cons_of_mem f hg)
    rw [replay]
    cases hkey : fileKey b f with
    | none => exact ih hreads hrest
    | some key =>
      obtain ⟨rawText, hraw⟩ := Option.isSome_iff_exists.mp (hread f List.mem_cons_self (by rw [hkey]; rfl))
      rw [hraw]
      dsimp only
      by_cases hown : key = own
      · subst hown
        have hsame := h f List.mem_cons_self hkey
        rw [hraw, Option.map_some] at hsame
        rw [ih hreads (by simpa [stored, hsame] using hrest), Trace.next, if_pos hsame.symm]
      · have hne : docIdOf own ≠ docIdOf key := fun heq => hown (docIdOf_inj (fileKey_slug hkey) hslug heq.symm)
        rw [ih hreads (by simpa [stored, hne] using hrest), Trace.next, if_neg hown]
        split_ifs <;> rfl

/-- A document that is written is written from the same file, whatever its hash was before. -/
theorem replay_of_not_allHashed (H H' : String → Option String) (tr tr' : Trace) (hslug : Slug own.1) {fs : List File}
    (hread : ∀ f ∈ fs, (fileKey b f).isSome → f.readText.isSome)
    (h : ¬ allHashed b own (H (docIdOf own)) fs) (h' : ¬ allHashed b own (H' (docIdOf own)) fs) :
    (∃ f ∈ fs, fileKey b f = some own ∧ (replay b own H fs tr).writer = some f ∧ (replay b own H' fs tr').writer = some f) ∧
      (AgreeElsewhere own H H' → replay b own H fs tr = replay b own H' fs tr') := by
  induction fs generalizing H H' tr tr' with
  | nil => exact absurd (fun _ hf => by cases hf) h
  | cons f fs ih =>
    have hreads : ∀ g ∈ fs, (fileKey b g).isSome → g.readText.isSome := fun g hg => hread g (List.mem_cons_of_mem f hg)
    rw [replay, replay]
    cases hkey : fileKey b f with
    | none =>
      have hskip {hash : Option String} : allHashed b own hash (f :: fs) ↔ allHashed b own hash fs := by
        simp [allHashed, hkey]
      rw [hskip] at h h'
      obtain ⟨⟨g, hg, hgkey, hwriter⟩, hagree⟩ := ih H H' tr tr' hreads h h'
      exact ⟨⟨g, List.mem_cons_of_mem f hg, hgkey, hwriter⟩, hagree⟩
    | some key =>
      obtain ⟨rawText, hraw⟩ := Option.isSome_iff_exists.mp (hread f List.mem_cons_self (by rw [hkey]; rfl))
      rw [hraw]
      dsimp only
      by_cases hown : key = own
      · subst hown
        have hhead {hash : Option String} : allHashed b key hash (f :: fs) ↔
            some (b.sha256 rawText) = hash ∧ allHashed b key hash fs := by
          simp [allHashed, hkey, hraw]
        rw [hhead] at h h'
        have hstored (H : String → Option String) :
            stored H (docIdOf key) (b.sha256 rawText) (docIdOf key) = some (b.sha256 rawText) := if_pos rfl
        by_cases hall : allHashed b key (some (b.sha256 rawText)) fs
        · -- the last write is here
          have hwrites {H : String → Option String} {tr : Trace}
              (h : ¬ (some (b.sha256 rawText) = H (docIdOf key) ∧ allHashed b key (H (docIdOf key)) fs)) :
              tr.next b key H f key rawText = ⟨some f, []⟩ := by
            have hne : ¬ H (docIdOf key) = some (b.sha256 rawText) := fun heq => h ⟨heq.symm, heq ▸ hall⟩
            rw [Trace.next, if_neg hne, if_pos rfl]
          rw [hwrites h, hwrites h']
          refine ⟨⟨f, List.mem_cons_self, hkey, ?_, ?_⟩, fun hagree => ?_⟩
          · exact writer_of_allHashed hslug hreads ((hstored H).symm ▸ hall)
          · exact writer_of_allHashed hslug hreads ((hstored H').symm ▸ hall)
          · have hsame : stored H (docIdOf key) (b.sha256 rawText) = stored H' (docIdOf key) (b.sha256 rawText) := by
              funext id
              unfold stored
              split
              · rfl
              · exact hagree id ‹_›
            rw [hsame]
        · obtain ⟨⟨g, hg, hgkey, hwriter⟩, hagree⟩ :=
            ih (stored H (docIdOf key) (b.sha256 rawText)) (stored H' (docIdOf key) (b.sha256 rawText)) _ _ hreads
              ((hstored H).symm ▸ hall) ((hstored H').symm ▸ hall)
          refine ⟨⟨g, List.mem_cons_of_mem f hg, hgkey, hwriter⟩, fun helse => hagree fun id hid => ?_⟩
          exact (if_neg hid).trans ((helse id hid).trans (if_neg hid).symm)
      · have hne : docIdOf own ≠ docIdOf key := fun heq => hown (docIdOf_inj (fileKey_slug hkey) hslug heq.symm)
        have hskip {hash : Option String} : allHashed b own hash (f :: fs) ↔ allHashed b own hash fs := by
          simp [allHashed, hkey, hown]
        rw [hskip] at h h'
        have hstored (H : String → Option String) :
            stored H (docIdOf key) (b.sha256 rawText) (docIdOf own) = H (docIdOf own) := if_neg hne
        obtain ⟨⟨g, hg, hgkey, hwriter⟩, hagree⟩ :=
          ih (stored H (docIdOf key) (b.sha256 rawText)) (stored H' (docIdOf key) (b.sha256 rawText)) _ _ hreads
            ((hstored H).symm ▸ h) ((hstored H').symm ▸ h')
        refine ⟨⟨g, List.mem_cons_of_mem f hg, hgkey, hwriter⟩, fun helse => hagree fun id hid => ?_⟩
        unfold stored
        split
        · rfl
        · exact helse id hid

end
end IndexReplay
