import TandemAgents.KnowledgeEdits

/-!
# What the index holds behind a sync

A sync goes through the files in the order of their paths, so of several files named for one
document the last is the one that is kept. The index mirrors the files, and an edit lasts, as
far as no other file stands behind the one that is meant.
-/
namespace KnowledgeMirror

open KeyedTable PythonText JsonData KnowledgeText KnowledgeFiles KnowledgeIndex KnowledgeEdits

set_option maxRecDepth 20000

section
variable (b : Backend)

/-- The document a file is listed for. -/
def fileKey (f : File) : Option Key := if isDocument b.py f.path then keyOf b.py f.path else none

/-- The files of a document, in the order of their paths. -/
def filesOf (t : Tree) (key : Key) : List File := t.files.filter (fun f => decide (fileKey b f = some key))

/-- The file can be read, and its front matter spelled. -/
def Readable (f : File) : Prop :=
  ∃ rawText frontmatter, f.readText = some rawText ∧ frontmatterOf b rawText = .dict frontmatter

/-- The key of a row. -/
def keyOfRow (d : Document) : Key := (d.collectionId, d.relativePath)

/-- A row as `sync_file` writes it. -/
structure Written (d : Document) : Prop where
  slug : Slug d.collectionId
  docId : d.docId = docIdOf (keyOfRow d)
  contentHash : d.contentHash = b.sha256 d.body
  frontmatter : frontmatterOf b d.body = .dict d.frontmatter

/-- An index as the program leaves it. -/
def Sound (ix : Index) : Prop := ∀ id d, ix.documents.find? id = some d → Written b d

/-- The documents are those the files are named for, one for each key, with the text of a file
of that key. -/
structure Mirrors (t : Tree) (ix : Index) : Prop where
  held : ∀ d ∈ ix.documents.rows, ∃ f ∈ t.files, fileKey b f = some (keyOfRow d) ∧ f.readText = some d.body
  indexed : ∀ f ∈ t.files, ∀ key, fileKey b f = some key → ∃! d, d ∈ ix.documents.rows ∧ keyOfRow d = key

/-- The row of a key. -/
def rowOf (ix : Index) (key : Key) : Option Document := ix.documents.find? (docIdOf key)

variable {b} {t : Tree}

theorem fileKey_slug {f : File} {key : Key} (h : fileKey b f = some key) : Slug key.1 := by
  unfold fileKey keyOf at h
  split at h
  · split at h
    · dsimp only at h
      split at h
      · cases h
      · rw [← Option.some.inj h]
        exact slugify_slug _ _
    · cases h
  · cases h

/-- Keys of collections that are slugs are told apart by their ids. -/
theorem docIdOf_inj {k k' : Key} (hk : Slug k.1) (hk' : Slug k'.1) (h : docIdOf k = docIdOf k') : k = k' := by
  obtain ⟨h₁, h₂⟩ := docId_inj hk hk' h
  exact Prod.ext h₁ h₂

theorem fileKey_some {f : File} {key : Key} (h : fileKey b f = some key) :
    isDocument b.py f.path = true ∧ keyOf b.py f.path = some key ∧ ¬ f.path.length < 2 := by
  unfold fileKey at h
  split at h
  · rename_i hdocument
    refine ⟨hdocument, h, ?_⟩
    unfold keyOf at h
    split at h
    · rename_i hpath
      simp [hpath]
    · cases h
  · cases h

/-! ## One file -/

variable {ix ix' : Index}

/-- The rows behind what `sync_file` stores. -/
theorem find?_storeDocument (key : Key) (p : Path) (rawText : String) (loaded : Loaded) (k : String) :
    (storeDocument b key p rawText loaded ix).1.documents.find? k =
      if k = docIdOf key then
        match loaded with
        | .dict frontmatter => some (documentOf b key p rawText frontmatter)
        | _ => none
      else ix.documents.find? k := by
  obtain ⟨cleared, hcleared⟩ : ∃ cleared, cleared =
      if (ix.documents.find? (docIdOf key)).isSome then deleteDocRows (docIdOf key) ix else ix := ⟨_, rfl⟩
  have hfind : cleared.documents.find? k = if k = docIdOf key then none else ix.documents.find? k := by
    rw [hcleared]
    split
    · exact find?_deleteDocRows _ _
    · rename_i hfound
      split
      · rename_i hk
        rw [hk]
        exact Option.not_isSome_iff_eq_none.mp hfound
      · rfl
  unfold storeDocument
  dsimp only
  rw [← hcleared]
  cases loaded with
  | dict frontmatter =>
    change (insertDocument (documentOf b key p rawText frontmatter) cleared).documents.find? k = _
    have hinsert : (insertDocument (documentOf b key p rawText frontmatter) cleared).documents.find? k =
        if k = docIdOf key then some (documentOf b key p rawText frontmatter) else cleared.documents.find? k :=
      Table.find?_overwrite _ _ (fun _ => rfl) k
    rw [hinsert, hfind]
    split <;> rfl
  | other | unencodable | raises =>
    rw [hfind]

/-- What a call of `sync_file` that returns has done with the text of a file. -/
structure Stored (b : Backend) (key : Key) (rawText : String) (ix ix' : Index) (action : Action) : Prop where
  docId : action.docId = some (docIdOf key)
  row : ∃ d, rowOf ix' key = some d ∧ d.body = rawText
  others : ∀ id, id ≠ docIdOf key → ix'.documents.find? id = ix.documents.find? id
  sound : Sound b ix'
  idle : (∃ d, rowOf ix key = some d ∧ d.body = rawText) → ix' = ix ∧ action = .unchanged (docIdOf key)
  busy : ¬ (∃ d, rowOf ix key = some d ∧ d.body = rawText) →
    action = .updated (docIdOf key) ∨ action = .created (docIdOf key)

/-- `sync_file` returns on a file that can be read, and raises on any other. -/
theorem syncFile_spec (hsha : Function.Injective b.sha256) (hsound : Sound b ix) {f : File} (hf : f ∈ t.files)
    {key : Key} (hkey : fileKey b f = some key) :
    (∃ rawText ix' action, Readable b f ∧ f.readText = some rawText ∧ syncFile b t f.path ix = (ix', .ok action) ∧
      Stored b key rawText ix ix' action) ∨ (¬ Readable b f ∧ ∃ ix' e, syncFile b t f.path ix = (ix', .error e)) := by
  obtain ⟨-, hkeyOf, -⟩ := fileKey_some hkey
  have hslug := fileKey_slug hkey
  unfold syncFile
  rw [Tree.existsAt_of_mem hf, if_neg (by simp), hkeyOf, Tree.find?_of_mem hf, Option.bind_some]
  cases hread : f.readText with
  | none =>
    refine .inr ⟨?_, ix, _, rfl⟩
    rintro ⟨rawText, _, hraw, _⟩
    rw [hread] at hraw
    cases hraw
  | some rawText =>
    have hbody : ∀ d, ix.documents.find? (docIdOf key) = some d →
        (d.contentHash = b.sha256 rawText ↔ d.body = rawText) := by
      intro d hd
      rw [(hsound _ d hd).contentHash]
      exact hsha.eq_iff
    have hsame : (ix.documents.find? (docIdOf key)).map Document.contentHash = some (b.sha256 rawText) ↔
        ∃ d, rowOf ix key = some d ∧ d.body = rawText := by
      rw [Option.map_eq_some_iff]
      exact exists_congr fun d => and_congr_right fun hd => hbody d hd
    dsimp only
    cases hload : frontmatterOf b rawText with
    | raises =>
      refine .inr ⟨?_, ix, _, rfl⟩
      rintro ⟨rawText', _, hraw, hdict⟩
      rw [hread] at hraw
      cases hraw
      rw [hload] at hdict
      cases hdict
    | dict frontmatter =>
      refine .inl ⟨rawText, ?_⟩
      dsimp only
      split
      · rename_i hhash
        have hrow := hsame.mp hhash
        exact ⟨ix, _, ⟨rawText, frontmatter, hread, hload⟩, rfl, rfl,
          ⟨rfl, hrow, fun _ _ => rfl, hsound, fun _ => ⟨rfl, rfl⟩, fun hno => absurd hrow hno⟩⟩
      · rename_i hhash
        have hno := fun h => hhash (hsame.mpr h)
        have hfind : ∀ k, (storeDocument b key f.path rawText (.dict frontmatter) ix).1.documents.find? k = _ :=
          find?_storeDocument key f.path rawText (.dict frontmatter)
        refine ⟨_, _, ⟨rawText, frontmatter, hread, hload⟩, rfl, rfl,
          ⟨?_, ?_, ?_, ?_, fun h => absurd h hno, fun _ => ?_⟩⟩
        · split <;> rfl
        · exact ⟨_, (hfind (docIdOf key)).trans (if_pos rfl), rfl⟩
        · intro id hid
          exact (hfind id).trans (if_neg hid)
        · intro id d hd
          have hd := (hfind id).symm.trans hd
          split at hd
          · cases hd
            exact ⟨hslug, rfl, rfl, hload⟩
          · exact hsound id d hd
        · split
          · exact .inl rfl
          · exact .inr rfl
    | other | unencodable =>
      refine .inr ⟨?_, ?_⟩
      · rintro ⟨rawText', _, hraw, hdict⟩
        rw [hread] at hraw
        cases hraw
        rw [hload] at hdict
        cases hdict
      · -- a row with this digest would hold this text, and a front matter that is spelled
        have hhash : ¬ (ix.documents.find? (docIdOf key)).map Document.contentHash = some (b.sha256 rawText) := by
          intro hhash
          obtain ⟨d, hd, hbodyd⟩ := hsame.mp hhash
          have hfront := (hsound _ d hd).frontmatter
          rw [hbodyd, hload] at hfront
          cases hfront
        dsimp only
        rw [if_neg hhash]
        exact ⟨_, _, rfl⟩

/-! ## The loop over the files -/

/-- Rows created and updated so far. -/
def writes (c : Counts) : Nat := c.created + c.updated

@[simp] theorem writes_unchanged (c : Counts) (id : String) : writes (c.add (.unchanged id)) = writes c := rfl
@[simp] theorem writes_ignored (c : Counts) : writes (c.add .ignored) = writes c := rfl
@[simp] theorem writes_updated (c : Counts) (id : String) : writes (c.add (.updated id)) = writes c + 1 := rfl
@[simp] theorem writes_created (c : Counts) (id : String) : writes (c.add (.created id)) = writes c + 1 := by
  simp [writes, Counts.add]
  omega

/-- A file is passed over, or indexed as the document it is listed for. -/
theorem syncFiles_cons {f : File} (hf : f ∈ t.files) (filter : Option String) (fs : List File) (counts : Counts)
    (seen : List String) (ix : Index) :
    (∃ counts', syncFiles b t filter (f :: fs) counts seen ix = syncFiles b t filter fs counts' seen ix ∧
      writes counts' = writes counts ∧ counts'.deleted = counts.deleted ∧ (filter = none → fileKey b f = none)) ∨
    (∃ key, fileKey b f = some key ∧ syncFiles b t filter (f :: fs) counts seen ix =
      match syncFile b t f.path ix with
      | (ix, .error e) => (ix, .error e)
      | (ix, .ok action) => syncFiles b t filter fs (counts.add action) (seen ++ action.docId.toList) ix) := by
  rw [syncFiles]
  split
  · rename_i hdocument
    refine .inl ⟨counts, rfl, rfl, rfl, fun _ => ?_⟩
    rw [fileKey, hdocument, if_neg Bool.false_ne_true]
  · rename_i hdocument
    split
    · rename_i hlength
      refine .inl ⟨_, rfl, rfl, rfl, fun _ => ?_⟩
      cases hkey : fileKey b f with
      | none => rfl
      | some key => exact absurd hlength (fileKey_some hkey).2.2
    · split
      · rename_i hcollection
        refine .inl ⟨counts, rfl, rfl, rfl, ?_⟩
        rintro rfl
        cases hcollection
      · rw [Bool.not_eq_false] at hdocument
        cases hkey : keyOf b.py f.path with
        | some key => exact .inr ⟨key, by rw [fileKey, if_pos hdocument, hkey], rfl⟩
        | none =>
          have hignored : syncFile b t f.path ix = (ix, .ok .ignored) := by
            unfold syncFile
            rw [Tree.existsAt_of_mem hf, if_neg (by simp), hkey]
          rw [hignored]
          refine .inl ⟨counts.add .ignored, ?_, rfl, rfl, fun _ => ?_⟩
          · simp [Action.docId]
          · rw [fileKey, if_pos hdocument, hkey]

/-- The index behind the files of a list. -/
structure Synced (b : Backend) (fs : List File) (seen seen' : List String) (ix ix' : Index) : Prop where
  sound : Sound b ix'
  readable : ∀ f ∈ fs, ∀ key, fileKey b f = some key → Readable b f
  last : ∀ key f, (fs.filter (fun f => decide (fileKey b f = some key))).getLast? = some f →
    ∃ d, rowOf ix' key = some d ∧ f.readText = some d.body
  others : ∀ id, (∀ f ∈ fs, ∀ key, fileKey b f = some key → docIdOf key ≠ id) →
    ix'.documents.find? id = ix.documents.find? id
  seen : ∀ id, id ∈ seen' ↔ id ∈ seen ∨ ∃ f ∈ fs, ∃ key, fileKey b f = some key ∧ docIdOf key = id

/-- The text of each document is that of its last file; the loop raises at the first file that
cannot be read. -/
theorem syncFiles_spec (hsha : Function.Injective b.sha256) (fs : List File) (hfs : ∀ f ∈ fs, f ∈ t.files)
    (counts : Counts) (seen : List String) (hsound : Sound b ix) :
    (∃ ix' counts' seen', syncFiles b t none fs counts seen ix = (ix', .ok (counts', seen')) ∧
      Synced b fs seen seen' ix ix') ∨
    ((∃ f ∈ fs, ∃ key, fileKey b f = some key ∧ ¬ Readable b f) ∧
      ∃ ix' e, syncFiles b t none fs counts seen ix = (ix', .error e)) := by
  induction fs generalizing counts seen ix with
  | nil =>
    refine .inl ⟨ix, counts, seen, rfl, ⟨hsound, by simp, by simp, by simp, by simp⟩⟩
  | cons f fs ih =>
    have hrest : ∀ g ∈ fs, g ∈ t.files := fun g hg => hfs g (List.mem_cons_of_mem f hg)
    obtain ⟨counts', hstep, -, -, hnone⟩ | ⟨key, hkey, hstep⟩ :=
      syncFiles_cons (b := b) (hfs f List.mem_cons_self) none fs counts seen ix
    · have hnone := hnone rfl
      rw [hstep]
      obtain ⟨ix', counts'', seen', hrun, h⟩ | ⟨⟨g, hg, hbad⟩, hrun⟩ := ih hrest counts' seen hsound
      · refine .inl ⟨ix', counts'', seen', hrun, ⟨h.sound, ?_, ?_, ?_, ?_⟩⟩
        · intro g hg key hkey
          obtain rfl | hg := List.mem_cons.mp hg
          · rw [hnone] at hkey
            cases hkey
          · exact h.readable g hg key hkey
        · intro key g hg
          rw [List.filter_cons_of_neg (by simp [hnone])] at hg
          exact h.last key g hg
        · exact fun id hid => h.others id fun g hg => hid g (List.mem_cons_of_mem f hg)
        · intro id
          rw [h.seen id]
          simp [hnone]
      · exact .inr ⟨⟨g, List.mem_cons_of_mem f hg, hbad⟩, hrun⟩
    · rw [hstep]
      obtain ⟨rawText, ix₁, action, hreadable, hread, hsync, hstored⟩ | ⟨hbad, ix₁, e, hsync⟩ :=
        syncFile_spec hsha hsound (hfs f List.mem_cons_self) hkey
      · rw [hsync]
        dsimp only
        obtain ⟨ix', counts'', seen', hrun, h⟩ | ⟨⟨g, hg, hbad⟩, hrun⟩ :=
          ih hrest (counts.add action) (seen ++ action.docId.toList) hstored.sound
        · refine .inl ⟨ix', counts'', seen', hrun, ⟨h.sound, ?_, ?_, ?_, ?_⟩⟩
          · intro g hg key' hkey'
            obtain rfl | hg := List.mem_cons.mp hg
            · exact hreadable
            · exact h.readable g hg key' hkey'
          · intro key' g hg
            cases hlast : (fs.filter (fun f => decide (fileKey b f = some key'))).getLast? with
            | some g' =>
              -- a later file of the key
              have hsame : g' = g := by
                by_cases hf : fileKey b f = some key'
                · rw [List.filter_cons_of_pos (by simp [hf]), List.getLast?_cons, hlast] at hg
                  exact Option.some.inj hg
                · rw [List.filter_cons_of_neg (by simp [hf]), hlast] at hg
                  exact Option.some.inj hg
              subst hsame
              exact h.last key' g' hlast
            | none =>
              have hnil := List.getLast?_eq_none_iff.mp hlast
              have hf : fileKey b f = some key' := by
                by_contra hf
                rw [List.filter_cons_of_neg (by simp [hf]), hnil] at hg
                cases hg
              rw [List.filter_cons_of_pos (by simp [hf]), hnil] at hg
              obtain rfl : f = g := Option.some.inj hg
              obtain rfl : key = key' := Option.some.inj (hkey.symm.trans hf)
              have hkept : rowOf ix' key = rowOf ix₁ key := by
                refine h.others _ fun g hg key₂ hkey₂ hid => ?_
                obtain rfl := docIdOf_inj (fileKey_slug hkey₂) (fileKey_slug hkey) hid
                exact List.filter_eq_nil_iff.mp hnil g hg (decide_eq_true hkey₂)
              obtain ⟨d, hd, hbody⟩ := hstored.row
              exact ⟨d, hkept.trans hd, by rw [hread, hbody]⟩
          · intro id hid
            rw [h.others id fun g hg => hid g (List.mem_cons_of_mem f hg)]
            exact hstored.others id fun heq => hid f List.mem_cons_self key hkey heq.symm
          · intro id
            rw [h.seen id, hstored.docId, Option.toList_some, List.mem_append, List.mem_singleton]
            simp only [List.mem_cons, exists_eq_or_imp, hkey, Option.some.injEq, exists_eq_left']
            rw [or_assoc, eq_comm (a := id)]
        · exact .inr ⟨⟨g, List.mem_cons_of_mem f hg, hbad⟩, hrun⟩
      · rw [hsync]
        exact .inr ⟨⟨f, List.mem_cons_self, key, hkey, hbad⟩, ix₁, e, rfl⟩

/-- The loop writes nothing exactly if every document already has the text of its files. -/
theorem syncFiles_writes (hsha : Function.Injective b.sha256) (fs : List File) (hfs : ∀ f ∈ fs, f ∈ t.files)
    {counts counts' : Counts} {seen seen' : List String} (hsound : Sound b ix)
    (hrun : syncFiles b t none fs counts seen ix = (ix', .ok (counts', seen'))) :
    counts'.deleted = counts.deleted ∧ writes counts ≤ writes counts' ∧
      (writes counts' = writes counts ↔
        ∀ f ∈ fs, ∀ key, fileKey b f = some key → ∃ d, rowOf ix key = some d ∧ f.readText = some d.body) ∧
      (writes counts' = writes counts → ix' = ix) := by
  induction fs generalizing counts seen ix with
  | nil =>
    cases hrun
    exact ⟨rfl, le_refl _, by simp, fun _ => rfl⟩
  | cons f fs ih =>
    have hrest : ∀ g ∈ fs, g ∈ t.files := fun g hg => hfs g (List.mem_cons_of_mem f hg)
    obtain ⟨counts₁, hstep, hwrites, hdeleted, hnone⟩ | ⟨key, hkey, hstep⟩ :=
      syncFiles_cons (b := b) (hfs f List.mem_cons_self) none fs counts seen ix
    · have hnone := hnone rfl
      rw [hstep] at hrun
      obtain ⟨hdel, hle, hiff, hsame⟩ := ih hrest hsound hrun
      rw [hwrites] at hle hiff hsame
      refine ⟨hdel.trans hdeleted, hle, hiff.trans ?_, hsame⟩
      simp [hnone]
    · rw [hstep] at hrun
      obtain ⟨rawText, ix₁, action, -, hread, hsync, hstored⟩ | ⟨-, ix₁, e, hsync⟩ :=
        syncFile_spec hsha hsound (hfs f List.mem_cons_self) hkey
      · rw [hsync] at hrun
        dsimp only at hrun
        obtain ⟨hdel, hle, hiff, hsame⟩ := ih hrest hstored.sound hrun
        by_cases hidle : ∃ d, rowOf ix key = some d ∧ d.body = rawText
        · obtain ⟨rfl, rfl⟩ := hstored.idle hidle
          rw [writes_unchanged] at hle hiff hsame
          refine ⟨hdel, hle, hiff.trans ?_, hsame⟩
          have hfirst : ∃ d, rowOf ix₁ key = some d ∧ f.readText = some d.body := by
            obtain ⟨d, hd, hbody⟩ := hidle
            exact ⟨d, hd, by rw [hread, hbody]⟩
          constructor
          · intro hall g hg key' hkey'
            obtain rfl | hg := List.mem_cons.mp hg
            · rw [hkey] at hkey'
              cases hkey'
              exact hfirst
            · exact hall g hg key' hkey'
          · exact fun hall g hg => hall g (List.mem_cons_of_mem f hg)
        · have hadd : writes (counts.add action) = writes counts + 1 ∧
              (counts.add action).deleted = counts.deleted := by
            obtain rfl | rfl := hstored.busy hidle
            · exact ⟨writes_updated counts _, rfl⟩
            · exact ⟨writes_created counts _, rfl⟩
          refine ⟨hdel.trans hadd.2, by omega, ?_, fun h => by omega⟩
          constructor
          · intro h
            omega
          · intro hall
            obtain ⟨d, hd, hbody⟩ := hall f List.mem_cons_self key hkey
            rw [hread] at hbody
            exact absurd ⟨d, hd, (Option.some.inj hbody).symm⟩ hidle
      · rw [hsync] at hrun
        cases hrun

/-! ## The whole sync -/

variable {outside : String → Bool}

/-- No file is listed for the id. -/
def Unlisted (b : Backend) (t : Tree) (id : String) : Prop :=
  ∀ f ∈ t.files, ∀ key, fileKey b f = some key → docIdOf key ≠ id

/-- The index behind a sync. -/
structure SyncedAll (b : Backend) (t : Tree) (outside : String → Bool) (ix ix' : Index) : Prop where
  sound : Sound b ix'
  readable : ∀ f ∈ t.files, ∀ key, fileKey b f = some key → Readable b f
  last : ∀ key f, (filesOf b t key).getLast? = some f → ∃ d, rowOf ix' key = some d ∧ f.readText = some d.body
  unlisted : ∀ id, Unlisted b t id →
    ix'.documents.find? id = (ix.documents.find? id).filter (fun d => d.sourcePath.present t outside)

theorem pruneRows_counts (t : Tree) (outside : String → Bool) (filter : Option String) (seen : List String)
    (ds : List Document) (counts : Counts) (ix : Index) :
    writes (pruneRows b t outside filter seen ds counts ix).2 = writes counts ∧
      (pruneRows b t outside filter seen ds counts ix).2.deleted =
        counts.deleted + (ds.filter (isGone b t outside filter seen)).length := by
  induction ds generalizing counts ix with
  | nil => exact ⟨rfl, rfl⟩
  | cons d ds ih =>
    rw [pruneRows]
    split
    · rename_i hgone
      obtain ⟨hwrites, hdeleted⟩ := ih (counts.add (.deleted d.docId)) (deleteDocRows d.docId ix)
      have hone : (counts.add (.deleted d.docId)).deleted = counts.deleted + 1 := rfl
      refine ⟨hwrites, ?_⟩
      rw [hdeleted, List.filter_cons_of_pos hgone, List.length_cons, hone]
      omega
    · rename_i hgone
      obtain ⟨hwrites, hdeleted⟩ := ih counts ix
      refine ⟨hwrites, ?_⟩
      rw [hdeleted, List.filter_cons_of_neg hgone]

/-- The rows the second loop leaves. -/
theorem find?_pruneRows (t : Tree) (outside : String → Bool) (filter : Option String) (seen : List String)
    (counts : Counts) (ix : Index) (id : String) :
    (pruneRows b t outside filter seen ix.documents.rows counts ix).1.documents.find? id =
      (ix.documents.find? id).filter (fun d => !isGone b t outside filter seen d) := by
  rw [pruneRows_index, (foldl_deleteDocRows _ _).1]
  cases hd : ix.documents.find? id with
  | none => simp
  | some d =>
    obtain ⟨rfl, hmem⟩ := Table.find?_some hd
    have hgone : d.docId ∈ (ix.documents.rows.filter (isGone b t outside filter seen)).map Document.docId ↔
        isGone b t outside filter seen d = true := by
      constructor
      · intro h
        obtain ⟨g, hg, hid⟩ := List.mem_map.mp h
        obtain ⟨hgmem, hgone⟩ := List.mem_filter.mp hg
        have hg := Table.mem_rows.mp hgmem
        rw [hid, hd] at hg
        cases hg
        exact hgone
      · exact fun h => List.mem_map_of_mem (List.mem_filter.mpr ⟨hmem, h⟩)
    rw [Option.filter_some]
    cases hisGone : isGone b t outside filter seen d with
    | true => exact if_pos (hgone.mpr hisGone)
    | false =>
      have hstays : d.docId ∉ (ix.documents.rows.filter (isGone b t outside filter seen)).map Document.docId := by
        rw [hgone, hisGone]
        exact Bool.false_ne_true
      exact if_neg hstays

theorem isGone_none (seen : List String) (d : Document) :
    isGone b t outside none seen d = (!decide (d.docId ∈ seen) && !d.sourcePath.present t outside) := by
  simp [isGone, inCollection]

/-- A sync returns exactly if every file of a document can be read. -/
theorem syncFromDisk_spec (t : Tree) (outside : String → Bool) (hsha : Function.Injective b.sha256)
    (hsound : Sound b ix) :
    (∃ ix' counts, syncFromDisk b t outside none ix = (ix', .ok counts) ∧ SyncedAll b t outside ix ix') ∨
    ((∃ f ∈ t.files, ∃ key, fileKey b f = some key ∧ ¬ Readable b f) ∧
      ∃ ix' e, syncFromDisk b t outside none ix = (ix', .error e)) := by
  unfold syncFromDisk
  obtain ⟨ix₁, counts, seen, hrun, h⟩ | ⟨hbad, ix₁, e, hrun⟩ :=
    syncFiles_spec (t := t) hsha t.files (fun f hf => hf) Counts.zero [] hsound
  · rw [hrun]
    refine .inl ⟨_, _, rfl, ?_⟩
    have hfind := fun id => find?_pruneRows (b := b) t outside none seen counts ix₁ id
    refine ⟨?_, h.readable, ?_, ?_⟩
    · intro id d hd
      rw [hfind] at hd
      exact h.sound id d (Option.filter_eq_some_iff.mp hd).1
    · intro key f hf
      obtain ⟨d, hd, hbody⟩ := h.last key f hf
      refine ⟨d, ?_, hbody⟩
      have hmem : f ∈ filesOf b t key := List.mem_of_getLast? hf
      obtain ⟨hfile, hkey⟩ := List.mem_filter.mp hmem
      have hseen : d.docId ∈ seen := by
        refine (h.seen _).mpr (.inr ⟨f, hfile, key, of_decide_eq_true hkey, ?_⟩)
        exact (Table.find?_key hd).symm
      refine (hfind _).trans (Option.filter_eq_some_iff.mpr ⟨hd, ?_⟩)
      rw [isGone_none, decide_eq_true hseen]
      rfl
    · intro id hid
      rw [hfind, h.others id hid]
      cases hd : ix.documents.find? id with
      | none => rfl
      | some d =>
        have hseen : d.docId ∉ seen := by
          intro hmem
          obtain hnil | ⟨f, hf, key, hkey, heq⟩ := (h.seen _).mp hmem
          · cases hnil
          · exact hid f hf key hkey (heq.trans (Table.find?_key hd))
        rw [Option.filter_some, Option.filter_some, isGone_none, decide_eq_false hseen]
        simp
  · rw [hrun]
    exact .inr ⟨hbad, ix₁, e, rfl⟩

/-! ## What a sync keeps of the files -/

/-- The documents mirror the files exactly if every file can be read and no document without a
file is taken for one that has its file still. -/
theorem mirrors_iff (hsha : Function.Injective b.sha256) (hsound : Sound b ix) :
    (∃ ix' counts, syncFromDisk b t outside none ix = (ix', .ok counts) ∧ Mirrors b t ix') ↔
      (∀ f ∈ t.files, ∀ key, fileKey b f = some key → Readable b f) ∧
        ∀ d ∈ ix.documents.rows, (∀ f ∈ t.files, fileKey b f ≠ some (keyOfRow d)) →
          d.sourcePath.present t outside = false := by
  have hunlisted : ∀ d, Written b d → (∀ f ∈ t.files, fileKey b f ≠ some (keyOfRow d)) → Unlisted b t d.docId := by
    intro d hd hno f hf key hkey hid
    refine hno f hf ?_
    rw [hd.docId] at hid
    rw [hkey, docIdOf_inj (fileKey_slug hkey) hd.slug hid]
  obtain ⟨ix', counts, hrun, h⟩ | ⟨⟨f, hf, key, hkey, hbad⟩, ix', e, hrun⟩ :=
    syncFromDisk_spec t outside hsha hsound
  · rw [hrun]
    constructor
    · rintro ⟨_, _, heq, hmirrors⟩
      cases heq
      refine ⟨h.readable, fun d hd hno => ?_⟩
      have hfind := Table.mem_rows.mp hd
      by_contra hpresent
      rw [Bool.not_eq_false] at hpresent
      have hkept : ix'.documents.find? d.docId = some d := by
        rw [h.unlisted _ (hunlisted d (hsound _ d hfind) hno), hfind, Option.filter_some, if_pos hpresent]
      obtain ⟨f, hf, hkey, -⟩ := hmirrors.held d (Table.find?_some hkept).2
      exact hno f hf hkey
    · rintro ⟨-, hgone⟩
      refine ⟨ix', counts, rfl, ?_, ?_⟩
      · intro d hd
        have hfind := Table.mem_rows.mp hd
        have hwritten := h.sound _ d hfind
        by_cases hlisted : ∃ f ∈ t.files, fileKey b f = some (keyOfRow d)
        · obtain ⟨f, hf, hkey⟩ := hlisted
          have hne : filesOf b t (keyOfRow d) ≠ [] :=
            List.ne_nil_of_mem (List.mem_filter.mpr ⟨hf, decide_eq_true hkey⟩)
          obtain ⟨g, hg⟩ := Option.isSome_iff_exists.mp (List.getLast?_isSome.mpr hne)
          obtain ⟨hgmem, hgkey⟩ := List.mem_filter.mp (List.mem_of_getLast? hg)
          obtain ⟨d', hd', hbody⟩ := h.last _ g hg
          rw [rowOf, ← hwritten.docId, hfind] at hd'
          cases hd'
          exact ⟨g, hgmem, of_decide_eq_true hgkey, hbody⟩
        · have hno : ∀ f ∈ t.files, fileKey b f ≠ some (keyOfRow d) := fun f hf hkey => hlisted ⟨f, hf, hkey⟩
          rw [h.unlisted _ (hunlisted d hwritten hno)] at hfind
          obtain ⟨hbefore, hpresent⟩ := Option.filter_eq_some_iff.mp hfind
          rw [hgone d (Table.find?_some hbefore).2 hno] at hpresent
          cases hpresent
      · intro f hf key hkey
        have hne : filesOf b t key ≠ [] := List.ne_nil_of_mem (List.mem_filter.mpr ⟨hf, decide_eq_true hkey⟩)
        obtain ⟨g, hg⟩ := Option.isSome_iff_exists.mp (List.getLast?_isSome.mpr hne)
        obtain ⟨d, hd, -⟩ := h.last _ g hg
        have hwritten := h.sound _ d hd
        refine ⟨d, ⟨(Table.find?_some hd).2, ?_⟩, ?_⟩
        · refine docIdOf_inj hwritten.slug (fileKey_slug hkey) ?_
          rw [← hwritten.docId]
          exact Table.find?_key hd
        · rintro d' ⟨hd', rfl⟩
          have hfind := Table.mem_rows.mp hd'
          rw [(h.sound _ d' hfind).docId] at hfind
          exact Option.some.inj (hfind.symm.trans hd)
  · rw [hrun]
    constructor
    · rintro ⟨_, _, heq, -⟩
      cases heq
    · rintro ⟨hall, -⟩
      exact absurd (hall f hf key hkey) hbad

/-- The next sync finds nothing to do exactly if the files of each document read alike. -/
theorem idle_iff (hsha : Function.Injective b.sha256) (hsound : Sound b ix) {counts : Counts}
    (hrun : syncFromDisk b t outside none ix = (ix', .ok counts)) :
    (∃ counts', syncFromDisk b t outside none ix' = (ix', .ok counts') ∧ counts'.created = 0 ∧ counts'.updated = 0 ∧
        counts'.deleted = 0) ↔
      ∀ f ∈ t.files, ∀ g ∈ t.files, ∀ key, fileKey b f = some key → fileKey b g = some key →
        f.readText = g.readText := by
  obtain ⟨ix₁, counts₁, hrun₁, h⟩ | ⟨-, ix₁, e, hrun₁⟩ := syncFromDisk_spec t outside hsha hsound
  swap
  · rw [hrun] at hrun₁
    cases hrun₁
  rw [hrun] at hrun₁
  cases hrun₁
  -- no row is left that is not listed and whose file is gone
  have hstay : ∀ id d, Unlisted b t id → ix'.documents.find? id = some d → d.sourcePath.present t outside = true := by
    intro id d hid hd
    rw [h.unlisted id hid] at hd
    exact (Option.filter_eq_some_iff.mp hd).2
  obtain ⟨ix₂, counts₂, seen₂, hloop, hsynced⟩ | ⟨⟨f, hf, key, hkey, hbad⟩, -⟩ :=
    syncFiles_spec (t := t) hsha t.files (fun f hf => hf) Counts.zero [] h.sound
  swap
  · exact absurd (h.readable f hf key hkey) hbad
  obtain ⟨hdel, -, hiff, hsame⟩ := syncFiles_writes hsha t.files (fun f hf => hf) h.sound hloop
  have hagain : syncFromDisk b t outside none ix' =
      ((pruneRows b t outside none seen₂ ix₂.documents.rows counts₂ ix₂).1,
        .ok (pruneRows b t outside none seen₂ ix₂.documents.rows counts₂ ix₂).2) := by
    unfold syncFromDisk
    rw [hloop]
  obtain ⟨hcounts, hdeleted⟩ := pruneRows_counts (b := b) t outside none seen₂
    ix₂.documents.rows counts₂ ix₂
  have hzero : writes Counts.zero = 0 := rfl
  rw [hzero] at hiff hsame
  have hlists : (∀ f ∈ t.files, ∀ key, fileKey b f = some key →
        ∃ d, rowOf ix' key = some d ∧ f.readText = some d.body) ↔
      ∀ f ∈ t.files, ∀ g ∈ t.files, ∀ key, fileKey b f = some key → fileKey b g = some key →
        f.readText = g.readText := by
    constructor
    · intro hall f hf g hg key hkf hkg
      obtain ⟨d, hd, hbody⟩ := hall f hf key hkf
      obtain ⟨d', hd', hbody'⟩ := hall g hg key hkg
      rw [hd] at hd'
      cases hd'
      rw [hbody, hbody']
    · intro hall f hf key hkey
      have hne : filesOf b t key ≠ [] := List.ne_nil_of_mem (List.mem_filter.mpr ⟨hf, decide_eq_true hkey⟩)
      obtain ⟨g, hg⟩ := Option.isSome_iff_exists.mp (List.getLast?_isSome.mpr hne)
      obtain ⟨hgmem, hgkey⟩ := List.mem_filter.mp (List.mem_of_getLast? hg)
      obtain ⟨d, hd, hbody⟩ := h.last _ g hg
      exact ⟨d, hd, by rw [hall f hf g hgmem key hkey (of_decide_eq_true hgkey), hbody]⟩
  constructor
  · rintro ⟨counts', hrun', hcreated, hupdated, -⟩
    rw [hagain] at hrun'
    injection hrun' with _ hcounts'
    have hnone : writes counts₂ = 0 := by
      rw [← hcounts, Except.ok.inj hcounts', writes, hcreated, hupdated]
    exact hlists.mp (hiff.mp hnone)
  · intro hall
    have hnone := hiff.mpr (hlists.mpr hall)
    obtain rfl := hsame hnone
    have hnogone : ix₂.documents.rows.filter (isGone b t outside none seen₂) = [] := by
      refine List.filter_eq_nil_iff.mpr fun d hd hgone => ?_
      rw [isGone_none, Bool.and_eq_true] at hgone
      obtain ⟨hseen, hpresent⟩ := hgone
      have hid : Unlisted b t d.docId := by
        intro f hf key hkey heq
        have hmem : d.docId ∈ seen₂ := (hsynced.seen _).mpr (.inr ⟨f, hf, key, hkey, heq⟩)
        simp [hmem] at hseen
      rw [hstay _ d hid (Table.mem_rows.mp hd)] at hpresent
      cases hpresent
    rw [hnogone, List.length_nil, Nat.add_zero, hdel] at hdeleted
    refine ⟨_, ?_, ?_, ?_, hdeleted⟩
    · rw [hagain, pruneRows_index, hnogone]
      rfl
    all_goals
      rw [hnone, writes] at hcounts
      omega

end
end KnowledgeMirror
