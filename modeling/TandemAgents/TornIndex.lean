import TandemAgents.IndexReplay

/-!
# A process that is stopped while it indexes

Any prefix of the statements of `sync_file` may be all that is executed. The next sync repairs what
is left unless the document's row is in already: then the hash is up to date, the file is passed
over, and the chunks and links that are missing stay missing.
-/
namespace TornIndex

open KeyedTable PythonText JsonData KnowledgeText KnowledgeFiles KnowledgeTables DocumentRows IndexReplay
open KnowledgeIndex hiding syncFile syncFiles pruneRows syncFromDisk pruneRows_index
open KnowledgeMirror hiding syncFiles_spec syncFromDisk_spec

set_option maxRecDepth 20000

section
variable (b : Backend) (r : Reader) (tree : Tree) (outside : String → Bool) (t : Tables) (f : File) (key : Key)

/-- The tables behind the first `n` statements of `sync_file`. -/
def cut (n : Nat) : Tables := run ((fileStatements b r tree f.path t).1.take n) t

/-- Behind a complete sync, the rows of a document are those that a fresh index has. -/
def Repaired : Prop :=
  ∃ synced counts fresh counts', syncFromDisk b r tree outside none t = (synced, .ok counts) ∧
    syncFromDisk b r tree outside none Tables.empty = (fresh, .ok counts') ∧
    rowsOf (docIdOf key) synced = rowsOf (docIdOf key) fresh

/-- The trace of a document in a fresh index. -/
def freshTrace : Trace := replay b key (fun _ => none) tree.files {}

/-- The hash of a file. -/
def hashOf : Option String := f.readText.map b.sha256

/-- The documents a file cites. -/
def citedBy (source : String) : Bool := (rowsFrom b r key f).cited source

/-- The rows of the document are replaced or deleted by the next sync behind the last write of this
one, which takes the links from it away. -/
def loses (tr : Trace) (source : String) : Bool := decide (source ∈ tr.dropped) || gone b tree outside t source

end

section
variable {b : Backend} {r : Reader} {tree : Tree} {outside : String → Bool} {t : Tables} {f : File} {key : Key}

/-- Every file of a document can be read. -/
def AllReadable (b : Backend) (tree : Tree) : Prop := ∀ g ∈ tree.files, ∀ k, fileKey b g = some k → Readable b g

theorem AllReadable.read (h : AllReadable b tree) : ∀ g ∈ tree.files, (fileKey b g).isSome → g.readText.isSome := by
  intro g hg hkey
  obtain ⟨k, hk⟩ := Option.isSome_iff_exists.mp hkey
  obtain ⟨rawText, -, hread, -⟩ := h g hg k hk
  rw [hread]
  rfl

/-! ## Prefixes -/

/-- The statements that delete the rows that are there. -/
def deletionCount (docId : String) (t : Tables) : Nat :=
  if (t.index.documents.find? docId).isSome then (chunkIds docId t).length + 3 else 0

theorem length_deletions (docId : String) (t : Tables) :
    (if (t.index.documents.find? docId).isSome then deletions docId t else []).length = deletionCount docId t := by
  unfold deletionCount
  split
  · simp [deletions]
  · rfl

section
variable (h : Coherent t) (hf : f ∈ tree.files) (hkey : fileKey b f = some key) {rawText : String} {frontmatter : Dict}
  (hread : f.readText = some rawText) (hload : frontmatterOf b rawText = .dict frontmatter)
  (hstale : hashes t (docIdOf key) ≠ some (b.sha256 rawText))

include hf hkey hread hload hstale

/-- A stop among the statements of a file whose hash is not up to date. -/
theorem cut_eq (n : Nat) : cut b r tree t f n =
    run ((insertions b r key f.path rawText frontmatter).take (n - deletionCount (docIdOf key) t))
      (run ((if (t.index.documents.find? (docIdOf key)).isSome then deletions (docIdOf key) t else []).take n) t) := by
  unfold cut
  rw [fileStatements_read hf hkey hread hload, if_neg hstale]
  unfold storeStatements
  dsimp only
  rw [List.take_append, run_append, length_deletions]

include h

/-- Before the document's row is inserted, its old row is there or none. -/
theorem cut_early {n : Nat} (hn : n ≤ deletionCount (docIdOf key) t) :
    Coherent (cut b r tree t f n) ∧
      (∀ id, id ≠ docIdOf key → (cut b r tree t f n).index.documents.find? id = t.index.documents.find? id) ∧
      hashes (cut b r tree t f n) (docIdOf key) ≠ some (b.sha256 rawText) := by
  rw [cut_eq hf hkey hread hload hstale, Nat.sub_eq_zero_of_le hn]
  change Coherent (run (List.take n _) t) ∧ (∀ id, _ → (run (List.take n _) t).index.documents.find? id = _) ∧
    hashes (run (List.take n _) t) _ ≠ _
  split
  · obtain ⟨hcoherent, hfind⟩ := deletions_take h (docIdOf key) n
    refine ⟨hcoherent, fun id hid => ?_, ?_⟩
    · obtain hsame | ⟨hown, -⟩ := hfind id
      · exact hsame
      · exact absurd hown hid
    · unfold hashes
      obtain hsame | ⟨-, hnone⟩ := hfind (docIdOf key)
      · rw [hsame]
        exact hstale
      · rw [hnone]
        simp
  · rw [List.take_nil]
    exact ⟨h, fun _ _ => rfl, hstale⟩

/-- From the document's row on. -/
theorem cut_begun (n : Nat) :
    ∃ t₀, Coherent t₀ ∧ (∀ id, id ≠ docIdOf key → t₀.index.documents.find? id = t.index.documents.find? id) ∧
      t₀.index.documents.find? (docIdOf key) = none ∧ cut b r tree t f (deletionCount (docIdOf key) t + n + 1) =
        run ((insertions b r key f.path rawText frontmatter).take (n + 1)) t₀ := by
  refine ⟨_, ?_, ?_, ?_, (cut_eq hf hkey hread hload hstale _).trans (by rw [Nat.add_assoc, Nat.add_sub_cancel_left])⟩
  all_goals rw [List.take_of_length_le (by rw [length_deletions]; omega)]
  · split
    · rw [run_deletions]
      exact h.clear _
    · exact h
  · intro id hid
    split
    · rw [run_deletions]
      exact (find?_deleteDocRows _ _).trans (if_neg hid)
    · rfl
  · split
    · rw [run_deletions]
      exact (find?_deleteDocRows _ _).trans (if_pos rfl)
    · rename_i hnone
      exact Option.not_isSome_iff_eq_none.mp hnone

/-- The rows that are there from the document's row on; they are all where every chunk and entry is
inserted. -/
theorem rows_cut (n : Nat) :
    ∃ rows, Coherent (cut b r tree t f (deletionCount (docIdOf key) t + n + 1)) ∧
      (∀ id, id ≠ docIdOf key → (cut b r tree t f (deletionCount (docIdOf key) t + n + 1)).index.documents.find? id =
        t.index.documents.find? id) ∧
      rowsOf (docIdOf key) (cut b r tree t f (deletionCount (docIdOf key) t + n + 1)) =
        ⟨some (documentOf b key f.path rawText frontmatter), rows, fun source => decide (source ∈
          ((documentOf b key f.path rawText frontmatter).sources b).take (n - 2 * (r.chunks rawText).length - 1))⟩ ∧
      (rows = (written b r key f.path rawText frontmatter).chunks ↔ 2 * (r.chunks rawText).length ≤ n) := by
  obtain ⟨t₀, hcoherent, hothers, hnone, hcut⟩ := cut_begun (r := r) h hf hkey hread hload hstale n
  obtain ⟨rows, hsets, hweight, hfull⟩ := insertions_take (b := b) (r := r) hcoherent key f.path rawText frontmatter hnone n
  rw [hcut]
  refine ⟨rows, hsets.coherent, fun id hid => ?_, hsets.own, fun hrows => ?_, hfull⟩
  · exact (congrArg DocRows.document (hsets.others id hid)).trans (hothers id hid)
  · rw [hrows, written, weight_chunkRows] at hweight
    omega

end

/-! ## The next sync -/

/-- No rows. -/
def nothing : DocRows := ⟨none, [], fun _ => false⟩

/-- The rows of a document in a fresh index. -/
def freshRows (b : Backend) (r : Reader) (tree : Tree) (key : Key) : DocRows :=
  (freshTrace b tree key).rows b r key nothing

/-- The rows behind a sync, from what they were. -/
def syncedRows (b : Backend) (r : Reader) (tree : Tree) (outside : String → Bool) (t : Tables) (key : Key) (tr : Trace)
    (before : DocRows) : DocRows :=
  ((tr.writer.map (rowsFrom b r key)).getD before).keep fun source => !loses b tree outside t tr source

/-- A complete sync repairs a document exactly if its trace leads to the fresh rows. -/
theorem repaired_iff_rows (h : Coherent t) (hreadable : AllReadable b tree) (hkey : ∃ f ∈ tree.files, fileKey b f = some key) :
    Repaired b r tree outside t key ↔
      syncedRows b r tree outside t key (replay b key (hashes t) tree.files {}) (rowsOf (docIdOf key) t) =
        freshRows b r tree key := by
  obtain ⟨synced, counts, hsync, -, hrows⟩ := syncFromDisk_rows (r := r) outside h hreadable hkey
  obtain ⟨fresh, counts', hfresh, -, hfreshRows⟩ := syncFromDisk_rows (r := r) outside coherent_empty hreadable hkey
  have hleft : rowsOf (docIdOf key) synced = syncedRows b r tree outside t key (replay b key (hashes t) tree.files {})
      (rowsOf (docIdOf key) t) := by
    rw [hrows, Trace.rows, DocRows.without, DocRows.keep_keep]
    refine congrArg (fun p => DocRows.keep p _) (funext fun source => ?_)
    simp [loses]
  have hright : rowsOf (docIdOf key) fresh = freshRows b r tree key := by
    rw [hfreshRows]
    refine DocRows.ext rfl rfl (funext fun source => ?_)
    exact Bool.and_true _
  rw [← hleft, ← hright]
  constructor
  · rintro ⟨synced', c, fresh', c', hsync', hfresh', heq⟩
    obtain ⟨rfl, -⟩ := Prod.mk.inj (hsync.symm.trans hsync')
    obtain ⟨rfl, -⟩ := Prod.mk.inj (hfresh.symm.trans hfresh')
    exact heq
  · exact fun heq => ⟨synced, counts, fresh, counts', hsync, hfresh, heq⟩

/-! ## Which stops are repaired -/

/-- The hashes behind the call, as far as the next sync looks at them: the document's row is in
already, or what it holds does not matter. -/
def hashesWith (t : Tables) (key : Key) (hash : Option String) : String → Option String :=
  fun id => if id = docIdOf key then hash else hashes t id

/-- Every file of the document has the text that is indexed, and the row says so already. -/
def Skipped (b : Backend) (tree : Tree) (t : Tables) (f : File) (key : Key) (n : Nat) : Prop :=
  allHashed b key (hashOf b f) tree.files ∧ (hashes t (docIdOf key) = hashOf b f ∨ deletionCount (docIdOf key) t < n)

/-- The chunks of a file. -/
def chunkCount (r : Reader) (f : File) : Nat := (f.readText.map fun rawText => (r.chunks rawText).length).getD 0

/-- What the file of a row cites, in the order of the insertions. -/
def sourcesOf (b : Backend) (key : Key) (f : File) : List String :=
  (f.readText.bind fun rawText => match frontmatterOf b rawText with
    | .dict frontmatter => some ((documentOf b key f.path rawText frontmatter).sources b)
    | _ => none).getD []

/-- A stop behind `n` statements that the next sync repairs. A document that is passed over must be
complete, and written from the file a fresh index writes it from; and of the links none may go
that a fresh index has. -/
structure Repairable (b : Backend) (r : Reader) (tree : Tree) (outside : String → Bool) (t : Tables) (f : File) (key : Key)
    (n : Nat) : Prop where
  current : Skipped b tree t f key n → hashes t (docIdOf key) = hashOf b f →
    syncedRows b r tree outside t key (replay b key (hashes t) tree.files {}) (rowsOf (docIdOf key) t) = freshRows b r tree key
  complete : Skipped b tree t f key n → hashes t (docIdOf key) ≠ hashOf b f →
    (freshTrace b tree key).writer = some f ∧ deletionCount (docIdOf key) t + 1 + 2 * chunkCount r f ≤ n ∧
      ∀ source ∈ sourcesOf b key f,
        (source ∈ (sourcesOf b key f).take (n - (deletionCount (docIdOf key) t + 2 * chunkCount r f + 2)) ∧
          loses b tree outside t (replay b key (hashesWith t key (hashOf b f)) tree.files {}) source = false) ↔
        source ∉ (freshTrace b tree key).dropped
  rewritten : ¬ Skipped b tree t f key n → ∀ w, (freshTrace b tree key).writer = some w → ∀ source ∈ sourcesOf b key w,
    (loses b tree outside t (replay b key (hashesWith t key none) tree.files {}) source = true ↔
      source ∈ (freshTrace b tree key).dropped)

theorem cited_rowsFrom (source : String) : (rowsFrom b r key f).cited source = decide (source ∈ sourcesOf b key f) := by
  unfold rowsFrom sourcesOf
  cases f.readText with
  | none => simp
  | some rawText =>
    rw [Option.map_some, Option.bind_some]
    cases frontmatterOf b rawText <;> simp [written]

/-- A fresh index writes the document from one of its files. -/
theorem fresh_writer (hreadable : AllReadable b tree) (hf : f ∈ tree.files) (hkey : fileKey b f = some key)
    {H : String → Option String} (hH : ¬ allHashed b key (H (docIdOf key)) tree.files) :
    ∃ w ∈ tree.files, fileKey b w = some key ∧ (replay b key H tree.files {}).writer = some w ∧
      (freshTrace b tree key).writer = some w := by
  have hnone : ¬ allHashed b key none tree.files := by
    intro h
    obtain ⟨rawText, -, hread, -⟩ := hreadable f hf key hkey
    have hhash := h f hf hkey
    rw [hread] at hhash
    cases hhash
  exact (replay_of_not_allHashed H (fun _ => none) {} {} (fileKey_slug hkey) hreadable.read hH hnone).1

section
variable {t₁ : Tables} (hothers : ∀ id, id ≠ docIdOf key → t₁.index.documents.find? id = t.index.documents.find? id)
  (hreadable : AllReadable b tree) (hf : f ∈ tree.files) (hkey : fileKey b f = some key)

include hothers in
theorem hashes_eq : hashes t₁ = hashesWith t key (hashes t₁ (docIdOf key)) := by
  funext id
  unfold hashesWith
  split
  · rename_i hid
    rw [hid]
  · rename_i hid
    unfold hashes
    rw [hothers id hid]

include hothers hf hkey in
theorem gone_eq : gone b tree outside t₁ = gone b tree outside t := by
  funext id
  unfold gone
  by_cases hid : id = docIdOf key
  · have hlisted : unlisted b tree id = false := by
      rw [← Bool.not_eq_true, unlisted_iff]
      intro hno
      exact hno f hf (by rw [hkey, hid]; rfl)
    rw [hlisted]
    cases t₁.index.documents.find? id <;> cases t.index.documents.find? id <;> rfl
  · rw [hothers id hid]

include hothers hreadable hf hkey

/-- A document that the next sync writes, from the file a fresh index writes it from. -/
theorem rows_rewritten (hall : ¬ allHashed b key (hashes t₁ (docIdOf key)) tree.files) :
    syncedRows b r tree outside t₁ key (replay b key (hashes t₁) tree.files {}) (rowsOf (docIdOf key) t₁) =
        freshRows b r tree key ↔
      ∀ w, (freshTrace b tree key).writer = some w → ∀ source ∈ sourcesOf b key w,
        (loses b tree outside t (replay b key (hashesWith t key none) tree.files {}) source = true ↔
          source ∈ (freshTrace b tree key).dropped) := by
  have hnone : ¬ allHashed b key (hashesWith t key none (docIdOf key)) tree.files := by
    intro h
    obtain ⟨rawText, -, hread, -⟩ := hreadable f hf key hkey
    have hhash := h f hf hkey
    rw [hread, hashesWith, if_pos rfl] at hhash
    cases hhash
  have hagree : AgreeElsewhere key (hashes t₁) (hashesWith t key none) := by
    intro id hid
    rw [hashes_eq hothers, hashesWith, if_neg hid, hashesWith, if_neg hid]
  have htrace := (replay_of_not_allHashed _ _ {} {} (fileKey_slug hkey) hreadable.read hall hnone).2 hagree
  obtain ⟨w, -, -, hwriter, hfresh⟩ := fresh_writer hreadable hf hkey hnone
  have hloses : loses b tree outside t₁ = loses b tree outside t := by
    unfold loses
    rw [gone_eq hothers hf hkey]
  have hsynced : syncedRows b r tree outside t₁ key (replay b key (hashes t₁) tree.files {}) (rowsOf (docIdOf key) t₁) =
      (rowsFrom b r key w).keep fun source =>
        !loses b tree outside t (replay b key (hashesWith t key none) tree.files {}) source := by
    rw [htrace, syncedRows, hwriter, hloses]
    rfl
  have hfreshRows : freshRows b r tree key = (rowsFrom b r key w).without (freshTrace b tree key).dropped := by
    rw [freshRows, Trace.rows, hfresh]
    rfl
  rw [hsynced, hfreshRows, DocRows.without, DocRows.keep_eq_iff, hfresh]
  simp only [cited_rowsFrom, decide_eq_true_eq, Option.some.injEq, forall_eq']
  refine forall₂_congr fun source _ => ?_
  rw [Bool.eq_iff_iff, Bool.not_eq_true', ← Bool.not_eq_true, decide_eq_true_eq, not_iff_not]

/-- A document that the next sync passes over, of which some chunks and links are in. -/
theorem rows_passed {rawText : String} {frontmatter : Dict} (hread : f.readText = some rawText)
    (hload : frontmatterOf b rawText = .dict frontmatter) (hhash : hashes t₁ (docIdOf key) = hashOf b f)
    (hall : allHashed b key (hashOf b f) tree.files) {rows : List ChunkRow} {n : Nat}
    (hrows : rowsOf (docIdOf key) t₁ = ⟨some (documentOf b key f.path rawText frontmatter), rows,
      fun source => decide (source ∈ (sourcesOf b key f).take n)⟩) :
    syncedRows b r tree outside t₁ key (replay b key (hashes t₁) tree.files {}) (rowsOf (docIdOf key) t₁) =
        freshRows b r tree key ↔
      (freshTrace b tree key).writer = some f ∧ rows = (written b r key f.path rawText frontmatter).chunks ∧
        ∀ source ∈ sourcesOf b key f, (source ∈ (sourcesOf b key f).take n ∧
            loses b tree outside t (replay b key (hashesWith t key (hashOf b f)) tree.files {}) source = false) ↔
          source ∉ (freshTrace b tree key).dropped := by
  have hnone : ¬ allHashed b key none tree.files := by
    intro h
    have hno := h f hf hkey
    rw [hread] at hno
    cases hno
  obtain ⟨w, hw, hwkey, -, hfresh⟩ := fresh_writer (H := fun _ => none) hreadable hf hkey hnone
  have hloses : loses b tree outside t₁ = loses b tree outside t := by
    unfold loses
    rw [gone_eq hothers hf hkey]
  have hwriter : (replay b key (hashes t₁) tree.files {}).writer = none :=
    writer_of_allHashed (fileKey_slug hkey) hreadable.read (hhash ▸ hall)
  have hsynced : syncedRows b r tree outside t₁ key (replay b key (hashes t₁) tree.files {}) (rowsOf (docIdOf key) t₁) =
      (rowsOf (docIdOf key) t₁).keep fun source =>
        !loses b tree outside t (replay b key (hashesWith t key (hashOf b f)) tree.files {}) source := by
    rw [syncedRows, hwriter, hloses, hashes_eq hothers, hhash]
    rfl
  have hfreshRows : freshRows b r tree key = (rowsFrom b r key w).without (freshTrace b tree key).dropped := by
    rw [freshRows, Trace.rows, hfresh]
    rfl
  have hfrom : rowsFrom b r key f = written b r key f.path rawText frontmatter := rowsFrom_read hread hload
  rw [hsynced, hfreshRows, hrows, hfresh]
  constructor
  · intro heq
    have hwf : w = f := by
      obtain ⟨rawText', frontmatter', hread', hload'⟩ := hreadable w hw key hwkey
      have hdocument := congrArg DocRows.document heq
      rw [rowsFrom_read hread' hload'] at hdocument
      have hpath : f.path = w.path := Source.inside.inj (congrArg Document.sourcePath (Option.some.inj hdocument))
      have hfind := Tree.find?_of_mem hf
      rw [hpath, Tree.find?_of_mem hw] at hfind
      exact Option.some.inj hfind
    subst hwf
    rw [hfrom] at heq
    refine ⟨rfl, congrArg DocRows.chunks heq, fun source hsource => ?_⟩
    have hcited := congrFun (congrArg DocRows.cited heq) source
    rw [← hfrom] at hcited
    change (_ && _) = ((rowsFrom b r key w).cited source && _) at hcited
    rw [cited_rowsFrom, decide_eq_true hsource, Bool.true_and, Bool.eq_iff_iff] at hcited
    simpa using hcited
  · rintro ⟨hwf, hchunks, hlinks⟩
    obtain rfl := Option.some.inj hwf
    refine DocRows.ext ?_ ?_ (funext fun source => ?_)
    · exact (congrArg DocRows.document hfrom).symm
    · exact hchunks.trans (congrArg DocRows.chunks hfrom).symm
    · change (decide (source ∈ (sourcesOf b key w).take n) && _) = ((rowsFrom b r key w).cited source && _)
      rw [cited_rowsFrom]
      by_cases hsource : source ∈ sourcesOf b key w
      · rw [decide_eq_true hsource, Bool.true_and, Bool.eq_iff_iff]
        simpa using hlinks source hsource
      · have htake : source ∉ (sourcesOf b key w).take n := fun h => hsource (List.mem_of_mem_take h)
        rw [decide_eq_false hsource, decide_eq_false htake]
        rfl

end

/-! ## Exactly which stops are repaired -/

theorem sourcesOf_read {rawText : String} {frontmatter : Dict} (hread : f.readText = some rawText)
    (hload : frontmatterOf b rawText = .dict frontmatter) :
    sourcesOf b key f = (documentOf b key f.path rawText frontmatter).sources b := by
  unfold sourcesOf
  rw [hread, Option.bind_some, hload]
  rfl

/-- A stop behind any number of statements is repaired by the next complete sync exactly if the
document is not passed over then, or is complete already, and none of its links go that a fresh
index has. -/
theorem repaired_iff (h : Coherent t) (hreadable : AllReadable b tree) (hf : f ∈ tree.files)
    (hkey : fileKey b f = some key) (n : Nat) :
    Repaired b r tree outside (cut b r tree t f n) key ↔ Repairable b r tree outside t f key n := by
  obtain ⟨rawText, frontmatter, hread, hload⟩ := hreadable f hf key hkey
  have hhash : hashOf b f = some (b.sha256 rawText) := by rw [hashOf, hread]; rfl
  by_cases hcurrent : hashes t (docIdOf key) = hashOf b f
  · -- nothing is executed
    have hcut : cut b r tree t f n = t := by
      unfold cut
      rw [fileStatements_read hf hkey hread hload, if_pos (hcurrent.trans hhash), List.take_nil]
      rfl
    rw [hcut, repaired_iff_rows h hreadable ⟨f, hf, hkey⟩]
    by_cases hall : allHashed b key (hashOf b f) tree.files
    · have hskipped : Skipped b tree t f key n := ⟨hall, .inl hcurrent⟩
      exact ⟨fun heq => ⟨fun _ _ => heq, fun _ hno => absurd hcurrent hno, fun hno => absurd hskipped hno⟩,
        fun hrepairable => hrepairable.current hskipped hcurrent⟩
    · have hskipped : ¬ Skipped b tree t f key n := fun hskipped => hall hskipped.1
      rw [rows_rewritten (fun _ _ => rfl) hreadable hf hkey (hcurrent.symm ▸ hall)]
      exact ⟨fun hlinks => ⟨fun hyes => absurd hyes hskipped, fun hyes => absurd hyes hskipped, fun _ => hlinks⟩,
        fun hrepairable => hrepairable.rewritten hskipped⟩
  · have hstale : hashes t (docIdOf key) ≠ some (b.sha256 rawText) := hhash ▸ hcurrent
    obtain hn | ⟨m, rfl⟩ : n ≤ deletionCount (docIdOf key) t ∨ ∃ m, n = deletionCount (docIdOf key) t + m + 1 := by
      obtain hn | hn := Nat.lt_or_ge (deletionCount (docIdOf key) t) n
      · exact .inr ⟨n - deletionCount (docIdOf key) t - 1, by omega⟩
      · exact .inl hn
    · -- the document's row is not in yet
      obtain ⟨hcoherent, hothers, hcutHash⟩ := cut_early (r := r) h hf hkey hread hload hstale hn
      have hskipped : ¬ Skipped b tree t f key n := by
        rintro ⟨-, hno | hno⟩
        · exact hcurrent hno
        · omega
      have hall : ¬ allHashed b key (hashes (cut b r tree t f n) (docIdOf key)) tree.files := by
        intro hall
        exact hcutHash ((hall f hf hkey).symm.trans hhash)
      rw [repaired_iff_rows hcoherent hreadable ⟨f, hf, hkey⟩, rows_rewritten hothers hreadable hf hkey hall]
      exact ⟨fun hlinks => ⟨fun hyes => absurd hyes hskipped, fun hyes => absurd hyes hskipped, fun _ => hlinks⟩,
        fun hrepairable => hrepairable.rewritten hskipped⟩
    · obtain ⟨rows, hcoherent, hothers, hrows, hfull⟩ := rows_cut (r := r) h hf hkey hread hload hstale m
      have hcutHash : hashes (cut b r tree t f (deletionCount (docIdOf key) t + m + 1)) (docIdOf key) = hashOf b f := by
        rw [hhash]
        exact congrArg (fun rows : DocRows => rows.document.map Document.contentHash) hrows
      rw [repaired_iff_rows hcoherent hreadable ⟨f, hf, hkey⟩]
      by_cases hall : allHashed b key (hashOf b f) tree.files
      · have hskipped : Skipped b tree t f key (deletionCount (docIdOf key) t + m + 1) := ⟨hall, .inr (by omega)⟩
        have hcount : chunkCount r f = (r.chunks rawText).length := by rw [chunkCount, hread]; rfl
        rw [← sourcesOf_read hread hload] at hrows
        rw [rows_passed hothers hreadable hf hkey hread hload hcutHash hall hrows, hfull]
        have hmiss : deletionCount (docIdOf key) t + m + 1 - (deletionCount (docIdOf key) t + 2 * chunkCount r f + 2) =
            m - 2 * (r.chunks rawText).length - 1 := by
          rw [hcount]
          omega
        have hlong : deletionCount (docIdOf key) t + 1 + 2 * chunkCount r f ≤ deletionCount (docIdOf key) t + m + 1 ↔
            2 * (r.chunks rawText).length ≤ m := by
          rw [hcount]
          omega
        constructor
        · intro hcomplete
          refine ⟨fun _ hyes => absurd hyes hcurrent, fun _ _ => ?_, fun hno => absurd hskipped hno⟩
          rw [hmiss, hlong]
          exact hcomplete
        · intro hrepairable
          have hcomplete := hrepairable.complete hskipped hcurrent
          rw [hmiss, hlong] at hcomplete
          exact hcomplete
      · have hskipped : ¬ Skipped b tree t f key (deletionCount (docIdOf key) t + m + 1) := fun hskipped => hall hskipped.1
        rw [rows_rewritten hothers hreadable hf hkey (hcutHash.symm ▸ hall)]
        exact ⟨fun hlinks => ⟨fun hyes => absurd hyes hskipped, fun hyes => absurd hyes hskipped, fun _ => hlinks⟩,
          fun hrepairable => hrepairable.rewritten hskipped⟩

/-! ## Passed over for ever -/

/-- A document that is passed over keeps its row and its chunks, whatever they are, through any
number of syncs. -/
theorem passed_stays (hreadable : AllReadable b tree) (hkey : ∃ g ∈ tree.files, fileKey b g = some key) (h : Coherent t)
    (hall : allHashed b key (hashes t (docIdOf key)) tree.files) (k : Nat) :
    (rowsOf (docIdOf key) ((fun t => (syncFromDisk b r tree outside none t).1)^[k] t)).document =
        (rowsOf (docIdOf key) t).document ∧
      (rowsOf (docIdOf key) ((fun t => (syncFromDisk b r tree outside none t).1)^[k] t)).chunks =
        (rowsOf (docIdOf key) t).chunks := by
  induction k generalizing t with
  | zero => exact ⟨rfl, rfl⟩
  | succ k ih =>
    obtain ⟨synced, counts, hsync, hcoherent, hrows⟩ := syncFromDisk_rows (r := r) outside h hreadable hkey
    obtain ⟨g, -, hg⟩ := hkey
    have hwriter : (replay b key (hashes t) tree.files {}).writer = none :=
      writer_of_allHashed (fileKey_slug hg) hreadable.read hall
    rw [Trace.rows, hwriter] at hrows
    have hdocument : (rowsOf (docIdOf key) synced).document = (rowsOf (docIdOf key) t).document := by rw [hrows]; rfl
    have hchunks : (rowsOf (docIdOf key) synced).chunks = (rowsOf (docIdOf key) t).chunks := by rw [hrows]; rfl
    have hhash : hashes synced (docIdOf key) = hashes t (docIdOf key) := congrArg (Option.map Document.contentHash) hdocument
    rw [Function.iterate_succ_apply, hsync, ← hdocument, ← hchunks]
    exact ih hcoherent (hhash ▸ hall)

end

/-! ## One file, indexed for the first time -/

def loneFile : File := ⟨["acme", "a.md"], some "A"⟩

def loneTree : Tree := ⟨[loneFile], [["acme"]], List.pairwise_singleton _ _⟩

def wholeReader : Reader where
  title := fun key _ _ => key.2
  tagText := fun _ => ""
  body := id
  splitChunks := fun body => [("", body)]

def loneKey : Key := ("acme", "a")

theorem loneFile_read : ∀ g ∈ loneTree.files, ∀ k, fileKey KnowledgeLinks.sampleBackend g = some k →
    Readable KnowledgeLinks.sampleBackend g := by
  intro g hg k _
  rw [List.mem_singleton.mp hg]
  exact ⟨"A", [], by decide +kernel, by rfl⟩

/-- A stop before the first statement is repaired. -/
theorem repaired_untouched : Repaired KnowledgeLinks.sampleBackend wholeReader loneTree KnowledgeLinks.anyone
    (cut KnowledgeLinks.sampleBackend wholeReader loneTree Tables.empty loneFile 0) loneKey := by
  refine (repaired_iff coherent_empty loneFile_read (List.mem_singleton_self _) (by decide +kernel) 0).mpr ⟨?_, ?_, ?_⟩
  · rintro ⟨-, hno | hno⟩
    · exact absurd hno (by decide +kernel)
    · cases hno
  · rintro ⟨-, hno | hno⟩
    · exact absurd hno (by decide +kernel)
    · cases hno
  · intro _ w hw source hsource
    have hlone : (freshTrace KnowledgeLinks.sampleBackend loneTree loneKey).writer = some loneFile := by decide +kernel
    obtain rfl := Option.some.inj (hlone.symm.trans hw)
    have hnone : sourcesOf KnowledgeLinks.sampleBackend loneKey loneFile = [] := by decide +kernel
    rw [hnone] at hsource
    cases hsource

/-- A stop right behind the document's row is not. -/
theorem not_repaired : ¬ Repaired KnowledgeLinks.sampleBackend wholeReader loneTree KnowledgeLinks.anyone
    (cut KnowledgeLinks.sampleBackend wholeReader loneTree Tables.empty loneFile 1) loneKey := by
  rintro ⟨synced, counts, fresh, counts', hsync, hfresh, heq⟩
  have hchunks : (rowsOf (docIdOf loneKey) (syncFromDisk KnowledgeLinks.sampleBackend wholeReader loneTree
        KnowledgeLinks.anyone none
        (cut KnowledgeLinks.sampleBackend wholeReader loneTree Tables.empty loneFile 1)).1).chunks.length = 0 ∧
      (rowsOf (docIdOf loneKey) (syncFromDisk KnowledgeLinks.sampleBackend wholeReader loneTree
        KnowledgeLinks.anyone none Tables.empty).1).chunks.length = 1 := by decide +kernel
  rw [hsync, hfresh, heq] at hchunks
  exact absurd (hchunks.1.symm.trans hchunks.2) Nat.zero_ne_one

end TornIndex
