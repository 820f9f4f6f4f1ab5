import TandemAgents.KnowledgeMirror

/-!
# Edits that last

An edit is kept by the syncs that follow as far as its file is the last one of its document,
and a document stays deleted if no second file is named for it.
-/
namespace KnowledgeAgreement

open KeyedTable PythonText JsonData KnowledgeText KnowledgeFiles KnowledgeIndex KnowledgeEdits KnowledgeMirror

set_option maxRecDepth 20000

/-- What clients do to the documents. -/
inductive Edit where
  | write (kind : Kind) (r : Request)
  | delete (collectionId docPath : String)
  | sync (filter : Option String)

section
variable (b : Backend)

/-- The document an edit is about. -/
def Edit.key : Edit → Option Key
  | .write _ r => some (keyFor b r.collectionId r.docPath)
  | .delete collectionId docPath => some (keyFor b collectionId docPath)
  | .sync _ => none

/-- The state behind an edit, whether it returns or not. -/
def Edit.run : Edit → World → World
  | .write kind r, w => (KnowledgeEdits.write b kind r w).1
  | .delete collectionId docPath, w => (deleteDocument b collectionId docPath w).1
  | .sync filter, w => { w with index := (syncFromDisk b w.tree w.outside filter w.index).1 }

def runAll (edits : List Edit) (w : World) : World := edits.foldl (fun w e => e.run b w) w

/-- The text a written document is to be read as: of the files that are named for it as well and
stand behind its own, the last. -/
def Lasts (t : Tree) (key : Key) (path : Path) (text : String) : Prop :=
  match ((filesOf b t key).filter (fun f => decide (path < f.path))).getLast? with
  | none => universalNewlines text = text
  | some f => f.readText = some text

/-- What is the same for a document that an edit is not about. -/
structure Apart (key : Key) (w w' : World) : Prop where
  files : filesOf b w'.tree key = filesOf b w.tree key
  outside : w'.outside = w.outside
  sound : Sound b w.index → Sound b w'.index
  absent : filesOf b w.tree key = [] → rowOf w.index key = none → rowOf w'.index key = none

variable {b} {w w' : World} {key : Key} {ix : Index}

theorem Apart.refl (w : World) : Apart b key w w := ⟨rfl, rfl, id, fun _ h => h⟩

theorem Apart.trans {w'' : World} (h : Apart b key w w') (h' : Apart b key w' w'') : Apart b key w w'' :=
  ⟨h'.files.trans h.files, h'.outside.trans h.outside, fun hs => h'.sound (h.sound hs),
    fun hf hr => h'.absent (h.files.trans hf) (h.absent hf hr)⟩

/-! ## One statement -/

/-- `sync_file` touches the row of one document only. -/
theorem syncFile_index (t : Tree) (p : Path) (ix : Index) : (syncFile b t p ix).1 = ix ∨
    ∃ key rawText, keyOf b.py p = some key ∧
      (syncFile b t p ix).1 = (storeDocument b key p rawText (frontmatterOf b rawText) ix).1 := by
  unfold syncFile
  split
  · exact .inl rfl
  · cases hkey : keyOf b.py p with
    | none => exact .inl rfl
    | some key =>
      cases (t.find? p).bind File.readText with
      | none => exact .inl rfl
      | some rawText =>
        dsimp only
        split
        · exact .inl rfl
        · split
          · exact .inl rfl
          · exact .inr ⟨key, rawText, rfl, rfl⟩

theorem keyOf_slug {py : Python} {p : Path} (h : keyOf py p = some key) : Slug key.1 := by
  unfold keyOf at h
  split at h
  · dsimp only at h
    split at h
    · cases h
    · rw [← Option.some.inj h]
      exact slugify_slug _ _
  · cases h

theorem syncFile_sound (h : Sound b ix) (t : Tree) (p : Path) : Sound b (syncFile b t p ix).1 := by
  obtain hsame | ⟨key, rawText, hkey, hrun⟩ := syncFile_index (b := b) t p ix
  · rw [hsame]
    exact h
  · intro id d hd
    rw [hrun, find?_storeDocument] at hd
    split at hd
    · cases hload : frontmatterOf b rawText with
      | dict frontmatter =>
        rw [hload] at hd
        cases hd
        exact ⟨keyOf_slug hkey, rfl, rfl, hload⟩
      | other | unencodable | raises =>
        rw [hload] at hd
        cases hd
    · exact h id d hd

theorem syncFile_others (hslug : Slug key.1) (t : Tree) (p : Path) (ix : Index) (hkey : keyOf b.py p ≠ some key) :
    rowOf (syncFile b t p ix).1 key = rowOf ix key := by
  obtain hsame | ⟨key', rawText, hkey', hrun⟩ := syncFile_index (b := b) t p ix
  · rw [hsame]
  · have hne : docIdOf key ≠ docIdOf key' := by
      intro heq
      rw [docIdOf_inj hslug (keyOf_slug hkey') heq] at hkey
      exact hkey hkey'
    rw [rowOf, hrun, find?_storeDocument, if_neg hne]
    rfl

theorem deleteDocRows_sound (h : Sound b ix) (id : String) : Sound b (deleteDocRows id ix) := by
  intro k d hd
  rw [find?_deleteDocRows] at hd
  split at hd
  · cases hd
  · exact h k d hd

/-! ## One sync -/

/-- The loop over the files, for any collection. -/
theorem syncFiles_apart (key : Key) (t : Tree) (filter : Option String) (fs : List File) (hfs : ∀ f ∈ fs, f ∈ t.files)
    (counts : Counts) (seen : List String) (ix : Index) :
    (Sound b ix → Sound b (syncFiles b t filter fs counts seen ix).1) ∧
      (Slug key.1 → (∀ f ∈ fs, fileKey b f ≠ some key) →
        rowOf (syncFiles b t filter fs counts seen ix).1 key = rowOf ix key) := by
  induction fs generalizing counts seen ix with
  | nil => exact ⟨id, fun _ _ => rfl⟩
  | cons f fs ih =>
    have hrest : ∀ g ∈ fs, g ∈ t.files := fun g hg => hfs g (List.mem_cons_of_mem f hg)
    obtain ⟨counts', hstep, -⟩ | ⟨key', hkey', hstep⟩ :=
      syncFiles_cons (b := b) (hfs f List.mem_cons_self) filter fs counts seen ix
    · rw [hstep]
      obtain ⟨hsound, hrow⟩ := ih hrest counts' seen ix
      exact ⟨hsound, fun hslug hno => hrow hslug fun g hg => hno g (List.mem_cons_of_mem f hg)⟩
    · rw [hstep]
      have hsound := fun h : Sound b ix => syncFile_sound h t f.path
      have hothers := fun (hslug : Slug key.1) (hno : keyOf b.py f.path ≠ some key) =>
        syncFile_others hslug t f.path ix hno
      cases hsync : syncFile b t f.path ix with
      | mk ix₁ outcome =>
        rw [hsync] at hsound hothers
        have hfirst : Slug key.1 → (∀ g ∈ f :: fs, fileKey b g ≠ some key) → rowOf ix₁ key = rowOf ix key := by
          intro hslug hno
          refine hothers hslug fun hkey => hno f List.mem_cons_self ?_
          rw [hkey', ← (fileKey_some hkey').2.1, hkey]
        cases outcome with
        | error e => exact ⟨hsound, hfirst⟩
        | ok action =>
          obtain ⟨hsound', hrow'⟩ := ih hrest (counts.add action) (seen ++ action.docId.toList) ix₁
          refine ⟨fun h => hsound' (hsound h), fun hslug hno => ?_⟩
          rw [hrow' hslug fun g hg => hno g (List.mem_cons_of_mem f hg)]
          exact hfirst hslug hno

theorem syncFromDisk_apart (key : Key) (t : Tree) (outside : String → Bool) (filter : Option String) (ix : Index) :
    (Sound b ix → Sound b (syncFromDisk b t outside filter ix).1) ∧
      (Slug key.1 → filesOf b t key = [] → rowOf ix key = none →
        rowOf (syncFromDisk b t outside filter ix).1 key = none) := by
  obtain ⟨hsound, hrow⟩ := syncFiles_apart (b := b) key t filter t.files (fun f hf => hf) Counts.zero [] ix
  unfold syncFromDisk
  cases hrun : syncFiles b t filter t.files Counts.zero [] ix with
  | mk ix₁ outcome =>
    rw [hrun] at hsound hrow
    have hnone : Slug key.1 → filesOf b t key = [] → rowOf ix key = none → rowOf ix₁ key = none := by
      intro hslug hfiles habsent
      rw [hrow hslug fun f hf hkey => List.filter_eq_nil_iff.mp hfiles f hf (decide_eq_true hkey), habsent]
    cases outcome with
    | error e => exact ⟨hsound, hnone⟩
    | ok result =>
      have hfind := fun id => find?_pruneRows (b := b) t outside filter result.2 result.1 ix₁ id
      refine ⟨fun h id d hd => ?_, fun hslug hfiles habsent => ?_⟩
      · have hd := (hfind id).symm.trans hd
        exact hsound h id d (Option.filter_eq_some_iff.mp hd).1
      · refine (hfind _).trans ?_
        have habsent := hnone hslug hfiles habsent
        rw [rowOf] at habsent
        rw [habsent]
        rfl

/-! ## One edit -/

theorem fileKey_congr {f g : File} (h : f.path = g.path) : fileKey b f = fileKey b g := by
  rw [fileKey, fileKey, h]

/-- The file an edit writes is listed for its document. -/
theorem fileKey_written (hpy : PlainLower b.py) {collectionId docPath suffix : String} {path : Path}
    (hsuffix : suffix = ".md" ∨ suffix = ".txt") (h : documentPath b.py collectionId docPath suffix = some path)
    (content : Option String) : fileKey b ⟨path, content⟩ = some (keyFor b collectionId docPath) := by
  obtain ⟨hdocument, hkey⟩ := documentPath_key hpy hsuffix h
  rw [fileKey, if_pos hdocument]
  exact hkey

/-- What a write leaves of the files. -/
theorem write_tree {t tree : Tree} {path : Path} {text : String} (h : t.write path text = some tree) :
    tree.files = insertFile ⟨path, some text⟩ t.files := by
  unfold Tree.write at h
  split at h
  · cases h
  · cases h
    rfl

theorem resolvePath_cases {py : Python} {t : Tree} {collectionId docPath : String} {path : Path}
    (h : resolvePath py t collectionId docPath = some path) :
    ∃ suffix, (suffix = ".md" ∨ suffix = ".txt") ∧ documentPath py collectionId docPath suffix = some path := by
  unfold resolvePath existingDocumentPath at h
  cases hmd : documentPath py collectionId docPath ".md" with
  | none =>
    rw [hmd] at h
    cases h
  | some md =>
    cases htxt : documentPath py collectionId docPath ".txt" with
    | none =>
      rw [hmd, htxt] at h
      exact ⟨".md", .inl rfl, hmd.trans h⟩
    | some txt =>
      rw [hmd, htxt] at h
      dsimp only at h
      split at h
      · exact ⟨".md", .inl rfl, hmd.trans h⟩
      · split at h
        · exact ⟨".txt", .inr rfl, htxt.trans h⟩
        · exact ⟨".md", .inl rfl, hmd.trans h⟩

/-- An edit of another document. -/
theorem Edit.run_apart (hpy : PlainLower b.py) (hslug : Slug key.1) (e : Edit) (hkey : e.key b ≠ some key) (w : World) :
    Apart b key w (e.run b w) := by
  cases e with
  | write kind r =>
    obtain ⟨error, hrun, -⟩ | ⟨path, tree, hpath, htree, hrun⟩ := write_writes hpy kind r w
    · rw [Edit.run, hrun]
      exact .refl w
    · rw [Edit.run, hrun]
      have hwritten := fileKey_written hpy (writtenSuffix_cases b kind r w) hpath
      have hno : ∀ content, fileKey b ⟨path, content⟩ ≠ some key := by
        intro content hfile
        rw [hwritten] at hfile
        exact hkey hfile
      refine ⟨?_, rfl, fun h => syncFile_sound h tree path, fun _ habsent => ?_⟩
      · change tree.files.filter _ = _
        rw [write_tree htree]
        refine filter_insertFile_of_neg (fun f hf => ?_) (decide_eq_false (hno _)) w.tree.files
        rw [fileKey_congr hf]
      · rw [← habsent]
        refine syncFile_others hslug tree path w.index fun hpathKey => ?_
        obtain ⟨-, hkeyOf⟩ := documentPath_key hpy (writtenSuffix_cases b kind r w) hpath
        exact hkey (hkeyOf.symm.trans hpathKey)
  | delete collectionId docPath =>
    obtain ⟨error, hrun, -⟩ | ⟨path, hpath, -, hrun⟩ := deleteDocument_cases (b := b) collectionId docPath w
    · rw [Edit.run, hrun]
      exact .refl w
    · rw [Edit.run, hrun]
      obtain ⟨suffix, hsuffix, hdocument⟩ := resolvePath_cases hpath
      have hindex : (removeDocument b w.writable collectionId docPath w.index).1 = w.index ∨
          (removeDocument b w.writable collectionId docPath w.index).1 =
            deleteDocRows (docIdOf (keyFor b collectionId docPath)) w.index := by
        rw [removeDocument, collectionDocumentId_normalized hpy]
        split
        · exact .inl rfl
        · split
          · exact .inl rfl
          · split
            · exact .inl rfl
            · split
              · exact .inr rfl
              · exact .inl rfl
      refine ⟨?_, rfl, fun h => ?_, fun _ habsent => ?_⟩
      · change (w.tree.files.filter _).filter _ = _
        rw [List.filter_filter]
        refine List.filter_congr fun f _ => ?_
        by_cases hf : fileKey b f = some key
        · have hne : f.path ≠ path := by
            intro heq
            have hwritten := fileKey_written hpy hsuffix hdocument f.content
            rw [← fileKey_congr (f := f) heq, hf] at hwritten
            exact hkey hwritten.symm
          simp [hf, hne]
        · simp [hf]
      · obtain hsame | hdeleted := hindex
        · rw [hsame]
          exact h
        · rw [hdeleted]
          exact deleteDocRows_sound h _
      · obtain hsame | hdeleted := hindex
        · rw [hsame]
          exact habsent
        · rw [hdeleted, rowOf, find?_deleteDocRows]
          split
          · rfl
          · exact habsent
  | sync filter =>
    obtain ⟨hsound, habsent⟩ := syncFromDisk_apart (b := b) key w.tree w.outside filter w.index
    exact ⟨rfl, rfl, hsound, habsent hslug⟩

/-- Any edits of other documents. -/
theorem runAll_apart (hpy : PlainLower b.py) (hslug : Slug key.1) (edits : List Edit)
    (hkeys : ∀ e ∈ edits, e.key b ≠ some key) (w : World) : Apart b key w (runAll b edits w) := by
  induction edits generalizing w with
  | nil => exact .refl w
  | cons e edits ih =>
    exact (e.run_apart hpy hslug (hkeys e List.mem_cons_self) w).trans
      (ih (fun e' he' => hkeys e' (List.mem_cons_of_mem e he')) (e.run b w))

theorem keyFor_slug (b : Backend) (collectionId docPath : String) : Slug (keyFor b collectionId docPath).1 :=
  slugify_slug _ _

/-! ## Edits and syncs -/

/-- A sync behind a write reads the text that was written exactly if it lasts. -/
theorem written_iff (hpy : PlainLower b.py) (hsha : Function.Injective b.sha256) (hsound : Sound b w.index)
    {kind : Kind} {r : Request} {a : Action} (hwrite : KnowledgeEdits.write b kind r w = (w', .ok a))
    (edits : List Edit) (hkeys : ∀ e ∈ edits, e.key b ≠ some (keyFor b r.collectionId r.docPath)) {ix' : Index} {counts : Counts}
    (hsync : syncFromDisk b (runAll b edits w').tree (runAll b edits w').outside none (runAll b edits w').index =
      (ix', .ok counts)) :
    (∃ d, rowOf ix' (keyFor b r.collectionId r.docPath) = some d ∧ d.body = r.stored (before b r w)) ↔
      ∃ path, documentPath b.py r.collectionId r.docPath (writtenSuffix b kind r w) = some path ∧
        Lasts b w.tree (keyFor b r.collectionId r.docPath) path (r.stored (before b r w)) := by
  obtain ⟨error, hrun, -⟩ | ⟨path, tree, hpath, htree, hrun⟩ := write_writes hpy kind r w
  · rw [hwrite] at hrun
    cases hrun
  · rw [hwrite] at hrun
    obtain rfl : w' = { w with tree := tree, index := (syncFile b tree path w.index).1 } := congrArg Prod.fst hrun
    have hapart := runAll_apart hpy (keyFor_slug b r.collectionId r.docPath) edits hkeys
      { w with tree := tree, index := (syncFile b tree path w.index).1 }
    have hwritten := fileKey_written hpy (writtenSuffix_cases b kind r w) hpath (some (r.stored (before b r w)))
    have hfiles : filesOf b (runAll b edits { w with tree := tree, index := (syncFile b tree path w.index).1 }).tree
        (keyFor b r.collectionId r.docPath) =
        (w.tree.files.filter fun f => decide (fileKey b f = some (keyFor b r.collectionId r.docPath)) &&
            decide (f.path < path)) ++
          ⟨path, some (r.stored (before b r w))⟩ ::
            (filesOf b w.tree (keyFor b r.collectionId r.docPath)).filter (fun f => decide (path < f.path)) := by
      rw [hapart.files]
      change tree.files.filter _ = _
      rw [write_tree htree, filter_insertFile_of_pos (decide_eq_true hwritten) w.tree.sorted, filesOf,
        List.filter_filter]
      congr 3
      funext f
      exact Bool.and_comm _ _
    obtain ⟨ix₁, counts₁, hrun₁, h⟩ | ⟨-, ix₁, e, hrun₁⟩ :=
      syncFromDisk_spec (runAll b edits _).tree (runAll b edits _).outside hsha
        (hapart.sound (syncFile_sound hsound tree path))
    swap
    · rw [hsync] at hrun₁
      cases hrun₁
    rw [hsync] at hrun₁
    cases hrun₁
    have hlast : ∀ f,
        (filesOf b (runAll b edits { w with tree := tree, index := (syncFile b tree path w.index).1 }).tree
          (keyFor b r.collectionId r.docPath)).getLast? = some f →
          ((∃ d, rowOf ix' (keyFor b r.collectionId r.docPath) = some d ∧ d.body = r.stored (before b r w)) ↔
            f.readText = some (r.stored (before b r w))) := by
      intro f hf
      obtain ⟨d, hd, hbody⟩ := h.last _ f hf
      rw [hbody, Option.some.injEq]
      constructor
      · rintro ⟨d', hd', hbody'⟩
        rw [hd] at hd'
        cases hd'
        exact hbody'
      · exact fun hbody => ⟨d, hd, hbody⟩
    have hlasts : (∃ d, rowOf ix' (keyFor b r.collectionId r.docPath) = some d ∧ d.body = r.stored (before b r w)) ↔
        Lasts b w.tree (keyFor b r.collectionId r.docPath) path (r.stored (before b r w)) := by
      unfold Lasts
      cases hbehind : ((filesOf b w.tree (keyFor b r.collectionId r.docPath)).filter
          (fun f => decide (path < f.path))).getLast? with
      | none =>
        refine (hlast ⟨path, some (r.stored (before b r w))⟩ ?_).trans ?_
        · rw [hfiles, List.getLast?_append_of_ne_nil _ (List.cons_ne_nil _ _), List.getLast?_cons, hbehind]
          rfl
        · simp [File.readText]
      | some f =>
        refine hlast f ?_
        rw [hfiles, List.getLast?_append_of_ne_nil _ (List.cons_ne_nil _ _), List.getLast?_cons, hbehind]
        rfl
    rw [hlasts]
    constructor
    · exact fun hl => ⟨path, hpath, hl⟩
    · rintro ⟨path', hpath', hl⟩
      rw [hpath] at hpath'
      cases hpath'
      exact hl

/-- A sync behind a deletion leaves the document absent exactly if the removed file was the
only one that is named for it. -/
theorem deleted_iff (hpy : PlainLower b.py) (hsha : Function.Injective b.sha256) (hsound : Sound b w.index)
    {collectionId docPath : String} {a : Action} (hdelete : deleteDocument b collectionId docPath w = (w', .ok a))
    (edits : List Edit) (hkeys : ∀ e ∈ edits, e.key b ≠ some (keyFor b collectionId docPath)) {ix' : Index}
    {counts : Counts}
    (hsync : syncFromDisk b (runAll b edits w').tree (runAll b edits w').outside none (runAll b edits w').index =
      (ix', .ok counts)) :
    rowOf ix' (keyFor b collectionId docPath) = none ↔
      ∀ f ∈ filesOf b w.tree (keyFor b collectionId docPath),
        resolvePath b.py w.tree collectionId docPath = some f.path := by
  obtain ⟨error, hrun, -⟩ | ⟨path, hpath, -, hrun⟩ := deleteDocument_cases (b := b) collectionId docPath w
  · rw [hdelete] at hrun
    cases hrun
  · rw [hdelete] at hrun
    injection hrun with hw houtcome
    have hremoved : rowOf w'.index (keyFor b collectionId docPath) = none ∧ (Sound b w.index → Sound b w'.index) := by
      rw [hw]
      rw [removeDocument] at houtcome ⊢
      dsimp only at houtcome ⊢
      rw [collectionDocumentId_normalized hpy] at houtcome ⊢
      split at houtcome
      · cases houtcome
      · split at houtcome
        · cases houtcome
        · split at houtcome
          · cases houtcome
          · rename_i hcollection hdocPath hwritable
            rw [if_neg hcollection, if_neg hdocPath, if_neg hwritable]
            split
            · refine ⟨?_, fun h => deleteDocRows_sound h _⟩
              rw [rowOf, find?_deleteDocRows, if_pos rfl]
            · rename_i hmissing
              exact ⟨Option.not_isSome_iff_eq_none.mp hmissing, id⟩
    have hapart := runAll_apart hpy (keyFor_slug b collectionId docPath) edits hkeys w'
    have hfiles : filesOf b w'.tree (keyFor b collectionId docPath) =
        (filesOf b w.tree (keyFor b collectionId docPath)).filter (fun f => decide (f.path ≠ path)) := by
      rw [hw]
      change (w.tree.files.filter _).filter _ = (w.tree.files.filter _).filter _
      rw [List.filter_filter, List.filter_filter]
      congr 1
      funext f
      exact Bool.and_comm _ _
    obtain ⟨ix₁, counts₁, hrun₁, h⟩ | ⟨-, ix₁, e, hrun₁⟩ :=
      syncFromDisk_spec (runAll b edits w').tree (runAll b edits w').outside hsha (hapart.sound (hremoved.2 hsound))
    swap
    · rw [hsync] at hrun₁
      cases hrun₁
    rw [hsync] at hrun₁
    cases hrun₁
    have hnil : rowOf ix' (keyFor b collectionId docPath) = none ↔
        filesOf b w'.tree (keyFor b collectionId docPath) = [] := by
      rw [← hapart.files]
      constructor
      · intro habsent
        by_contra hne
        obtain ⟨g, hg⟩ := Option.isSome_iff_exists.mp (List.getLast?_isSome.mpr hne)
        obtain ⟨d, hd, -⟩ := h.last _ g hg
        rw [habsent] at hd
        cases hd
      · intro hfiles'
        have hunlisted : Unlisted b (runAll b edits w').tree (docIdOf (keyFor b collectionId docPath)) := by
          intro f hf key hkey heq
          rw [docIdOf_inj (fileKey_slug hkey) (keyFor_slug b collectionId docPath) heq] at hkey
          exact List.filter_eq_nil_iff.mp hfiles' f hf (decide_eq_true hkey)
        have habsent := hapart.absent (hapart.files.symm.trans hfiles') hremoved.1
        rw [rowOf] at habsent
        rw [rowOf, h.unlisted _ hunlisted, habsent]
        rfl
    rw [hnil, hfiles, List.filter_eq_nil_iff, hpath]
    refine forall₂_congr fun f _ => ?_
    rw [decide_eq_true_iff, not_not, Option.some.injEq, eq_comm]

end

/-- What agrees with the files behind a sync, and exactly when: the documents with the files, one
sync with the next, a written document with its text, a deleted document with its absence. -/
theorem index_agrees (b : Backend) (hpy : PlainLower b.py) (hsha : Function.Injective b.sha256) :
    (∀ t outside ix, Sound b ix →
      ((∃ ix' counts, syncFromDisk b t outside none ix = (ix', .ok counts) ∧ Mirrors b t ix') ↔
        (∀ f ∈ t.files, ∀ key, fileKey b f = some key → Readable b f) ∧
          ∀ d ∈ ix.documents.rows, (∀ f ∈ t.files, fileKey b f ≠ some (keyOfRow d)) →
            d.sourcePath.present t outside = false)) ∧
    (∀ t outside ix ix' counts, Sound b ix → syncFromDisk b t outside none ix = (ix', .ok counts) →
      ((∃ counts', syncFromDisk b t outside none ix' = (ix', .ok counts') ∧ counts'.created = 0 ∧ counts'.updated = 0 ∧
          counts'.deleted = 0) ↔
        ∀ f ∈ t.files, ∀ g ∈ t.files, ∀ key, fileKey b f = some key → fileKey b g = some key →
          f.readText = g.readText)) ∧
    (∀ w kind r w' a edits ix' counts, Sound b w.index → KnowledgeEdits.write b kind r w = (w', .ok a) →
      (∀ e ∈ edits, Edit.key b e ≠ some (keyFor b r.collectionId r.docPath)) →
      syncFromDisk b (runAll b edits w').tree (runAll b edits w').outside none (runAll b edits w').index =
        (ix', .ok counts) →
      ((∃ d, rowOf ix' (keyFor b r.collectionId r.docPath) = some d ∧ d.body = r.stored (before b r w)) ↔
        ∃ path, documentPath b.py r.collectionId r.docPath (writtenSuffix b kind r w) = some path ∧
          Lasts b w.tree (keyFor b r.collectionId r.docPath) path (r.stored (before b r w)))) ∧
    (∀ w collectionId docPath w' a edits ix' counts, Sound b w.index →
      deleteDocument b collectionId docPath w = (w', .ok a) →
      (∀ e ∈ edits, Edit.key b e ≠ some (keyFor b collectionId docPath)) →
      syncFromDisk b (runAll b edits w').tree (runAll b edits w').outside none (runAll b edits w').index =
        (ix', .ok counts) →
      (rowOf ix' (keyFor b collectionId docPath) = none ↔
        ∀ f ∈ filesOf b w.tree (keyFor b collectionId docPath),
          resolvePath b.py w.tree collectionId docPath = some f.path)) := by
  refine ⟨fun t outside ix hsound => mirrors_iff hsha hsound, ?_, ?_, ?_⟩
  · intro t outside ix ix' counts hsound hrun
    exact idle_iff hsha hsound hrun
  · intro w kind r w' a edits ix' counts hsound hwrite hkeys hsync
    exact written_iff hpy hsha hsound hwrite edits hkeys hsync
  · intro w collectionId docPath w' a edits ix' counts hsound hdelete hkeys hsync
    exact deleted_iff hpy hsha hsound hdelete edits hkeys hsync

/-! ## A document in a text file -/

def oldText : String := "old"

/-- The front matter an edit puts in front of `new`. -/
def stamp : String := "kb_origin: admin\nkb_updated_at: '2024-01-01T00:00:00+00:00'"

def newText : String := "---\n" ++ stamp ++ "\n---\n\nnew"

/-- The digests of the two texts; no digest starts with `~`. -/
def sampleDigest (text : String) : String :=
  if text = oldText then "cba06b5736faf67e54b07b561eae94395e774c517a7d910a54369e1263ccfbd4"
  else if text = newText then "402f71e4f65805a2a8001ed2ac6408b07842bb4ae2b4a0cc8a026565d52d7ccd"
  else "~" ++ text

theorem sampleDigest_injective : Function.Injective sampleDigest := by
  have hother : ∀ z digest : String, digest.toList.head? ≠ some '~' → "~" ++ z ≠ digest := by
    rintro z _ hhead rfl
    exact hhead (by simp)
  intro x y h
  unfold sampleDigest at h
  by_cases hx : x = oldText ∨ x = newText
  · by_cases hy : y = oldText ∨ y = newText
    · obtain rfl | rfl := hx <;> obtain rfl | rfl := hy
      · rfl
      · exact absurd h (by decide +kernel)
      · exact absurd h (by decide +kernel)
      · rfl
    · rw [not_or] at hy
      rw [if_neg hy.1, if_neg hy.2] at h
      exact absurd h.symm (hother y _ (by obtain rfl | rfl := hx <;> decide +kernel))
  · rw [not_or] at hx
    rw [if_neg hx.1, if_neg hx.2] at h
    by_cases hy : y = oldText ∨ y = newText
    · exact absurd h (hother x _ (by obtain rfl | rfl := hy <;> decide +kernel))
    · rw [not_or] at hy
      rw [if_neg hy.1, if_neg hy.2] at h
      exact (String.append_right_inj "~").mp h

def sampleBackend : Backend where
  py := asciiPython
  sha256 := sampleDigest
  safeLoad source :=
    if source = stamp then .dict [("kb_origin", .str "admin"), ("kb_updated_at", .str "2024-01-01T00:00:00+00:00")]
    else .other

/-- The file `x.txt` of the collection `acme`, indexed. -/
def sampleTree : Tree := ⟨[⟨["acme", "x.txt"], some oldText⟩], [["acme"]], List.pairwise_singleton _ _⟩

def sampleWorld : World where
  tree := sampleTree
  outside _ := false
  writable _ := true
  index := (syncFromDisk sampleBackend sampleTree (fun _ => false) none Index.empty).1

/-- A client asks for another text. -/
def sampleRequest : Request := ⟨"acme", "x", none, false, false, "", "", fun _ => newText⟩

theorem sampleWorld_sound : Sound sampleBackend sampleWorld.index := by
  refine (syncFromDisk_apart ("", "") sampleTree (fun _ => false) none Index.empty).1 ?_
  intro id d hd
  cases hd

/-- What a write of the request leaves behind the next sync. -/
def resynced (kind : Kind) : Index × Except KbError Counts :=
  let w := (KnowledgeEdits.write sampleBackend kind sampleRequest sampleWorld).1
  syncFromDisk sampleBackend w.tree w.outside none w.index

/-- An edit of the metadata goes into the file that is there, and lasts. -/
theorem metadata_lasts : ∃ d, rowOf (resynced .metadata).1 ("acme", "x") = some d ∧ d.body = newText := by
  obtain ⟨-, -, hwritten, -⟩ := index_agrees sampleBackend asciiPython_plain sampleDigest_injective
  have hkey : keyFor sampleBackend "acme" "x" = ("acme", "x") := by decide +kernel
  have hok : (KnowledgeEdits.write sampleBackend .metadata sampleRequest sampleWorld).2 = .ok (.updated "acme/x") := by
    decide +kernel
  have hsync : (resynced .metadata).2 = .ok ⟨0, 0, 1, 0, 0, 0⟩ := by decide +kernel
  have hpath : documentPath sampleBackend.py "acme" "x"
      (writtenSuffix sampleBackend .metadata sampleRequest sampleWorld) = some ["acme", "x.txt"] := by decide +kernel
  have hbehind : ((filesOf sampleBackend sampleTree ("acme", "x")).filter
      (fun f => decide (["acme", "x.txt"] < f.path))).getLast? = none := by decide +kernel
  have hlasts : Lasts sampleBackend sampleTree ("acme", "x") ["acme", "x.txt"] newText := by
    unfold Lasts
    rw [hbehind]
    decide +kernel
  have h := hwritten sampleWorld .metadata sampleRequest _ _ [] _ _ sampleWorld_sound (Prod.ext rfl hok) (by simp)
    (Prod.ext rfl hsync)
  rw [show keyFor sampleBackend sampleRequest.collectionId sampleRequest.docPath = ("acme", "x") from hkey] at h
  exact h.mpr ⟨["acme", "x.txt"], hpath, hlasts⟩

/-- An update of the text goes into a new file `x.md`, and the next sync brings the old text back. -/
theorem update_lost :
    (KnowledgeEdits.write sampleBackend .update sampleRequest sampleWorld).2 = .ok (.updated "acme/x") ∧
    (resynced .update).2 = .ok ⟨0, 1, 1, 0, 0, 0⟩ ∧
    ¬ ∃ d, rowOf (resynced .update).1 ("acme", "x") = some d ∧ d.body = newText := by
  refine ⟨by decide +kernel, by decide +kernel, ?_⟩
  rintro ⟨d, hd, hbody⟩
  have hold : (rowOf (resynced .update).1 ("acme", "x")).map Document.body = some oldText := by decide +kernel
  rw [hd, Option.map_some, hbody] at hold
  exact absurd hold (by decide +kernel)

end KnowledgeAgreement
