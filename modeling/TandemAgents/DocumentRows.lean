import Mathlib.Algebra.Ring.Nat
import TandemAgents.KnowledgeTables

/-!
# The rows of one document

A document has its row, its chunks with their entries in the full-text table, and the links from
what it cites. What a call does to the rows of another document is to take away a link; what it
does to its own document it does chunk by chunk.
-/
namespace DocumentRows

open KeyedTable PythonText JsonData KnowledgeText KnowledgeFiles KnowledgeIndex KnowledgeLinks KnowledgeTables

set_option maxRecDepth 20000

/-- A chunk with its entries, whatever its id. -/
structure ChunkRow where
  ordinal : Nat
  heading : String
  content : String
  entries : List Entry
  deriving DecidableEq

/-- The rows of a document; `cited` says from which documents links lead to it. -/
@[ext]
structure DocRows where
  document : Option Document
  chunks : List ChunkRow
  cited : String → Bool

/-- The entries under the id of a chunk. -/
def entriesOf (chunkId : Nat) (t : Tables) : List Entry :=
  (t.fts.filter fun row => decide (row.1 = chunkId)).map Prod.snd

def chunkRow (t : Tables) (c : Chunk) : ChunkRow := ⟨c.ordinal, c.heading, c.content, entriesOf c.chunkId t⟩

def rowsOf (docId : String) (t : Tables) : DocRows where
  document := t.index.documents.find? docId
  chunks := (t.chunks.filter fun c => decide (c.docId = docId)).map (chunkRow t)
  cited := fun source => decide ((source, docId) ∈ t.index.links)

/-- The rows with the links from some documents only. -/
def DocRows.keep (p : String → Bool) (rows : DocRows) : DocRows :=
  { rows with cited := fun source => rows.cited source && p source }

/-- The rows without the links from some documents. -/
def DocRows.without (gone : List String) : DocRows → DocRows := DocRows.keep fun source => decide (source ∉ gone)

@[simp] theorem DocRows.without_nil (rows : DocRows) : rows.without [] = rows := by
  ext <;> simp [DocRows.without, DocRows.keep]

theorem DocRows.keep_keep (p q : String → Bool) (rows : DocRows) :
    (rows.keep p).keep q = rows.keep fun source => p source && q source := by
  ext <;> simp [DocRows.keep, Bool.and_assoc]

theorem DocRows.without_append (rows : DocRows) (gone gone' : List String) :
    (rows.without gone).without gone' = rows.without (gone ++ gone') := by
  ext <;> simp [DocRows.without, DocRows.keep, Bool.and_assoc]

/-- Of the links that are there, the same are kept. -/
theorem DocRows.keep_eq_iff {rows : DocRows} {p q : String → Bool} :
    rows.keep p = rows.keep q ↔ ∀ source, rows.cited source = true → p source = q source := by
  constructor
  · intro heq source hsource
    have hcited := congrFun (congrArg DocRows.cited heq) source
    simpa [DocRows.keep, hsource] using hcited
  · intro hlinks
    refine DocRows.ext rfl rfl (funext fun source => ?_)
    change (rows.cited source && p source) = (rows.cited source && q source)
    cases hsource : rows.cited source with
    | true => rw [hlinks source hsource]
    | false => rfl

/-- The tables of an index that was never tampered with: ids are given out once, and chunks, entries
and links belong to a document that is listed. -/
structure Coherent (t : Tables) : Prop where
  ids : (t.chunks.map Chunk.chunkId).Nodup
  given : ∀ c ∈ t.chunks, c.chunkId ≤ t.last
  paired : ∀ row ∈ t.fts, ∃ c ∈ t.chunks, c.chunkId = row.1 ∧ c.docId = row.2.docId
  listed : ∀ c ∈ t.chunks, (t.index.documents.find? c.docId).isSome = true
  linked : ∀ l ∈ t.index.links, (t.index.documents.find? l.2).isSome = true

theorem coherent_empty : Coherent Tables.empty where
  ids := List.nodup_nil
  given := by simp [Tables.empty]
  paired := by simp [Tables.empty]
  listed := by simp [Tables.empty]
  linked := by simp [Tables.empty, Index.empty]

section
variable {b : Backend} {r : Reader} {t : Tables} {id : String}

/-! ## Deleting -/

/-- A chunk is told from others by its id. -/
theorem Coherent.chunk_eq (h : Coherent t) {c c' : Chunk} (hc : c ∈ t.chunks) (hc' : c' ∈ t.chunks)
    (hid : c.chunkId = c'.chunkId) : c = c' := List.inj_on_of_nodup_map h.ids hc hc' hid

theorem mem_chunkIds {chunkId : Nat} : chunkId ∈ chunkIds id t ↔ ∃ c ∈ t.chunks, c.docId = id ∧ c.chunkId = chunkId := by
  simp [chunkIds, and_assoc]

theorem Coherent.not_mem_chunkIds (h : Coherent t) {c : Chunk} (hc : c ∈ t.chunks) (hother : c.docId ≠ id) :
    c.chunkId ∉ chunkIds id t := by
  rintro hmem
  obtain ⟨c', hc', hdoc, hid⟩ := mem_chunkIds.mp hmem
  exact hother (h.chunk_eq hc' hc hid ▸ hdoc)

theorem mem_otherChunks {chunks : List Chunk} {c : Chunk} : c ∈ otherChunks id chunks ↔ c ∈ chunks ∧ c.docId ≠ id := by
  simp [otherChunks]

theorem Coherent.deleteFts (h : Coherent t) (ids : List Nat) :
    Coherent { t with fts := t.fts.filter fun row => decide (row.1 ∉ ids) } :=
  { h with paired := fun row hrow => h.paired row (List.mem_of_mem_filter hrow) }

theorem Coherent.deleteChunks (h : Coherent t) (id : String) :
    Coherent { t with
      fts := t.fts.filter fun row => decide (row.1 ∉ chunkIds id t)
      chunks := otherChunks id t.chunks } where
  ids := h.ids.sublist (List.filter_sublist.map _)
  given := fun c hc => h.given c (mem_otherChunks.mp hc).1
  paired := by
    intro row hrow
    obtain ⟨hmem, hkept⟩ := List.mem_filter.mp hrow
    obtain ⟨c, hc, hid, hdoc⟩ := h.paired row hmem
    refine ⟨c, mem_otherChunks.mpr ⟨hc, fun hown => ?_⟩, hid, hdoc⟩
    exact of_decide_eq_true hkept (mem_chunkIds.mpr ⟨c, hc, hown, hid⟩)
  listed := fun c hc => h.listed c (mem_otherChunks.mp hc).1
  linked := h.linked

theorem Coherent.filterLinks (h : Coherent t) (p : String × String → Bool) :
    Coherent { t with index := { t.index with links := t.index.links.filter p } } :=
  { h with linked := fun l hl => h.linked l (List.mem_of_mem_filter hl) }

theorem Coherent.clear (h : Coherent t) (id : String) : Coherent (clear id t) where
  ids := (h.deleteChunks id).ids
  given := (h.deleteChunks id).given
  paired := (h.deleteChunks id).paired
  listed := by
    intro c hc
    obtain ⟨hmem, hother⟩ := mem_otherChunks.mp hc
    have hfind : (deleteDocRows id t.index).documents.find? c.docId = _ := find?_deleteDocRows id c.docId
    rw [if_neg hother] at hfind
    exact (congrArg Option.isSome hfind).trans (h.listed c hmem)
  linked := by
    rintro ⟨source, target⟩ hl
    obtain ⟨hmem, -, htarget⟩ := mem_links_deleteDocRows.mp hl
    have hfind : (deleteDocRows id t.index).documents.find? target = _ := find?_deleteDocRows id target
    rw [if_neg htarget] at hfind
    exact (congrArg Option.isSome hfind).trans (h.linked _ hmem)

/-- Deleting a document takes from another one the link to it. -/
theorem rowsOf_clear (h : Coherent t) {other : String} (hother : other ≠ id) :
    rowsOf other (clear id t) = (rowsOf other t).without [id] := by
  ext1
  · exact (find?_deleteDocRows id other).trans (if_neg hother)
  · change ((otherChunks id t.chunks).filter fun c => decide (c.docId = other)).map (chunkRow (clear id t)) =
      (t.chunks.filter fun c => decide (c.docId = other)).map (chunkRow t)
    have hfilter : (otherChunks id t.chunks).filter (fun c => decide (c.docId = other)) =
        t.chunks.filter fun c => decide (c.docId = other) := by
      rw [otherChunks, List.filter_filter]
      refine List.filter_congr fun c _ => ?_
      by_cases hc : c.docId = other
      · simp [hc, hother]
      · simp [hc]
    rw [hfilter]
    refine List.map_congr_left fun c hc => ?_
    obtain ⟨hmem, hdoc⟩ := List.mem_filter.mp hc
    have hkept : c.chunkId ∉ chunkIds id t :=
      h.not_mem_chunkIds hmem fun hid => hother ((of_decide_eq_true hdoc).symm.trans hid)
    unfold chunkRow entriesOf KnowledgeTables.clear
    rw [List.filter_filter]
    congr 2
    refine List.filter_congr fun row _ => ?_
    by_cases hrow : row.1 = c.chunkId
    · simp [hrow, hkept]
    · simp [hrow]
  · funext source
    have hlinks : (source, other) ∈ (deleteDocRows id t.index).links ↔
        (source, other) ∈ t.index.links ∧ source ≠ id ∧ other ≠ id := mem_links_deleteDocRows
    change decide ((source, other) ∈ (deleteDocRows id t.index).links) =
      (decide ((source, other) ∈ t.index.links) && decide (source ∉ [id]))
    rw [Bool.eq_iff_iff, decide_eq_true_eq, hlinks]
    simp [hother]

/-- What a prefix of a deletion leaves is coherent, and at most the document's own row is gone. -/
theorem deletions_take (h : Coherent t) (id : String) (n : Nat) :
    Coherent (run ((deletions id t).take n) t) ∧
      ∀ other, (run ((deletions id t).take n) t).index.documents.find? other = t.index.documents.find? other ∨
        other = id ∧ (run ((deletions id t).take n) t).index.documents.find? other = none := by
  unfold deletions
  rw [List.take_append, ← List.map_take, run_append, run_deleteFts, List.length_map]
  obtain hshort | hlong := Nat.le_total n (chunkIds id t).length
  · rw [Nat.sub_eq_zero_of_le hshort]
    exact ⟨h.deleteFts _, fun _ => .inl rfl⟩
  · rw [List.take_of_length_le hlong]
    have hall : run [.deleteChunks id, .deleteLinks id, .deleteDocument id]
        { t with fts := t.fts.filter fun row => decide (row.1 ∉ chunkIds id t) } = clear id t := by
      rw [← run_deletions, deletions, run_append, run_deleteFts]
    -- the document is deleted last
    rcases n - (chunkIds id t).length with _ | _ | _ | k
    · exact ⟨h.deleteFts _, fun _ => .inl rfl⟩
    · exact ⟨h.deleteChunks id, fun _ => .inl rfl⟩
    · exact ⟨(h.deleteChunks id).filterLinks _, fun _ => .inl rfl⟩
    · rw [List.take_of_length_le (by simp), hall]
      refine ⟨h.clear id, fun other => ?_⟩
      have hfind : (deleteDocRows id t.index).documents.find? other = _ := find?_deleteDocRows id other
      by_cases hother : other = id
      · rw [if_pos hother] at hfind
        exact .inr ⟨hother, hfind⟩
      · rw [if_neg hother] at hfind
        exact .inl hfind

/-! ## Inserting -/

/-- The rows of the document have grown by these chunks, and nothing else is changed. -/
structure Grown (id : String) (rows : List ChunkRow) (t t' : Tables) : Prop where
  coherent : Coherent t'
  index : t'.index = t.index
  others : ∀ other, other ≠ id → rowsOf other t' = rowsOf other t
  own : rowsOf id t' = { rowsOf id t with chunks := (rowsOf id t).chunks ++ rows }

theorem Grown.refl (h : Coherent t) : Grown id [] t t := ⟨h, rfl, fun _ _ => rfl, by simp⟩

theorem Grown.trans {rows rows' : List ChunkRow} {t' t'' : Tables} (h : Grown id rows t t') (h' : Grown id rows' t' t'') :
    Grown id (rows ++ rows') t t'' where
  coherent := h'.coherent
  index := h'.index.trans h.index
  others := fun other hother => (h'.others other hother).trans (h.others other hother)
  own := by rw [h'.own, h.own, List.append_assoc]

/-- No entry has the id of the next chunk. -/
theorem Coherent.entriesOf_next (h : Coherent t) : entriesOf (t.last + 1) t = [] := by
  unfold entriesOf
  rw [List.map_eq_nil_iff, List.filter_eq_nil_iff]
  intro row hrow hid
  obtain ⟨c, hc, hc', -⟩ := h.paired row hrow
  have hgiven := h.given c hc
  have hnext := of_decide_eq_true hid
  omega

theorem grown_insertChunk (h : Coherent t) (hid : (t.index.documents.find? id).isSome = true) (ordinal : Nat)
    (heading content : String) :
    Grown id [⟨ordinal, heading, content, []⟩] t (Statement.exec t (.insertChunk id ordinal heading content)) where
  coherent :=
    { ids := by
        have hnew : t.last + 1 ∉ t.chunks.map Chunk.chunkId := by
          intro hmem
          obtain ⟨c, hc, hc'⟩ := List.mem_map.mp hmem
          have hgiven := h.given c hc
          omega
        change ((t.chunks ++ [_]).map Chunk.chunkId).Nodup
        rw [List.map_append, List.nodup_append]
        refine ⟨h.ids, List.nodup_singleton _, ?_⟩
        intro x hx y hy
        rw [List.map_cons, List.map_nil, List.mem_singleton] at hy
        rintro rfl
        rw [hy] at hx
        exact hnew hx
      given := by
        intro c hc
        obtain hc | hc := List.mem_append.mp hc
        · exact Nat.le_succ_of_le (h.given c hc)
        · rw [List.mem_singleton.mp hc]
          exact Nat.le_refl _
      paired := fun row hrow => by
        obtain ⟨c, hc, hpair⟩ := h.paired row hrow
        exact ⟨c, List.mem_append_left _ hc, hpair⟩
      listed := by
        intro c hc
        obtain hc | hc := List.mem_append.mp hc
        · exact h.listed c hc
        · rw [List.mem_singleton.mp hc]
          exact hid
      linked := h.linked }
  index := rfl
  others := by
    intro other hother
    ext1
    · rfl
    · change ((t.chunks ++ [_]).filter _).map (chunkRow t) = _
      rw [List.filter_append, List.filter_cons_of_neg (by simpa using hother.symm), List.filter_nil, List.append_nil]
      rfl
    · rfl
  own := by
    ext1
    · rfl
    · change ((t.chunks ++ [_]).filter _).map (chunkRow t) = _
      rw [List.filter_append, List.filter_cons_of_pos (by simp), List.filter_nil, List.map_append]
      change _ ++ [ChunkRow.mk _ _ _ (entriesOf (t.last + 1) t)] = _
      rw [h.entriesOf_next]
      rfl
    · rfl

/-- An entry under a new id is no entry of a chunk that was there. -/
theorem Coherent.entriesOf_old (h : Coherent t) {c : Chunk} (hc : c ∈ t.chunks) (e : Entry) (chunks : List Chunk) :
    entriesOf c.chunkId { t with fts := t.fts ++ [(t.last + 1, e)], chunks := chunks, last := t.last + 1 } =
      entriesOf c.chunkId t := by
  unfold entriesOf
  have hgiven := h.given c hc
  have hne : ¬ t.last + 1 = c.chunkId := by omega
  rw [List.filter_append, List.filter_cons_of_neg (by simpa using hne), List.filter_nil, List.append_nil]

theorem grown_insertPair (h : Coherent t) (hid : (t.index.documents.find? id).isSome = true) (ordinal : Nat)
    (heading content : String) {e : Entry} (he : e.docId = id) :
    Grown id [⟨ordinal, heading, content, [e]⟩] t
      (Statement.exec (Statement.exec t (.insertChunk id ordinal heading content)) (.insertFts e)) := by
  have hchunk := grown_insertChunk h hid ordinal heading content
  refine ⟨{ hchunk.coherent with paired := ?_ }, rfl, ?_, ?_⟩
  · intro row hrow
    obtain hrow | hrow := List.mem_append.mp hrow
    · exact hchunk.coherent.paired row hrow
    · rw [List.mem_singleton.mp hrow]
      exact ⟨_, List.mem_append_right _ (List.mem_singleton_self _), rfl, he.symm⟩
  · intro other hother
    ext1
    · rfl
    · change ((t.chunks ++ [_]).filter _).map _ = (t.chunks.filter _).map _
      rw [List.filter_append, List.filter_cons_of_neg (by simpa using hother.symm), List.filter_nil, List.append_nil]
      refine List.map_congr_left fun c hc => ?_
      exact congrArg (ChunkRow.mk _ _ _) (h.entriesOf_old (List.mem_of_mem_filter hc) e _)
    · rfl
  · ext1
    · rfl
    · change ((t.chunks ++ [_]).filter _).map _ = (t.chunks.filter _).map _ ++ _
      rw [List.filter_append, List.filter_cons_of_pos (by simp), List.filter_nil, List.map_append]
      congr 1
      · refine List.map_congr_left fun c hc => ?_
        exact congrArg (ChunkRow.mk _ _ _) (h.entriesOf_old (List.mem_of_mem_filter hc) e _)
      · refine congrArg (fun entries => [ChunkRow.mk ordinal heading content entries]) ?_
        change ((t.fts ++ [(t.last + 1, e)]).filter fun row => decide (row.1 = t.last + 1)).map Prod.snd = [e]
        have hold : t.fts.filter (fun row => decide (row.1 = t.last + 1)) = [] := List.map_eq_nil_iff.mp h.entriesOf_next
        rw [List.filter_append, hold, List.filter_cons_of_pos (by simp), List.filter_nil]
        rfl
    · rfl

/-! ## What a text is inserted as -/

/-- Statements that have inserted a chunk or an entry. -/
def weight (rows : List ChunkRow) : Nat := (rows.map fun c => 1 + c.entries.length).sum

/-- The chunks of a text. -/
def chunkRows (entry : String × String → Entry) : Nat → List (String × String) → List ChunkRow
  | _, [] => []
  | ordinal, chunk :: chunks => ⟨ordinal, chunk.1, chunk.2, [entry chunk]⟩ :: chunkRows entry (ordinal + 1) chunks

theorem weight_cons (c : ChunkRow) (rows : List ChunkRow) : weight (c :: rows) = 1 + c.entries.length + weight rows := by
  simp [weight]

theorem weight_chunkRows (entry : String × String → Entry) (ordinal : Nat) (chunks : List (String × String)) :
    weight (chunkRows entry ordinal chunks) = 2 * chunks.length := by
  induction chunks generalizing ordinal with
  | nil => rfl
  | cons chunk chunks ih =>
    rw [chunkRows, weight_cons, ih]
    simp
    omega

/-- The first statements of `_insert_chunks`. -/
theorem chunkStatements_take {entry : String × String → Entry} (hentry : ∀ c, (entry c).docId = id)
    (chunks : List (String × String)) (ordinal n : Nat) {t : Tables} (h : Coherent t)
    (hid : (t.index.documents.find? id).isSome = true) :
    ∃ rows, Grown id rows t (run ((chunkStatements id entry ordinal chunks).take n) t) ∧
      weight rows = min n (2 * chunks.length) ∧ (2 * chunks.length ≤ n → rows = chunkRows entry ordinal chunks) := by
  induction chunks generalizing ordinal n t with
  | nil => exact ⟨[], by simpa [chunkStatements, run] using Grown.refl h, by simp [weight], fun _ => rfl⟩
  | cons chunk chunks ih =>
    rcases n with _ | _ | n
    · exact ⟨[], Grown.refl h, by simp [weight], by simp⟩
    · refine ⟨_, grown_insertChunk h hid ordinal chunk.1 chunk.2, ?_, fun hlong => ?_⟩
      · simp [weight]
        omega
      · simp at hlong
        omega
    · have hpair := grown_insertPair h hid ordinal chunk.1 chunk.2 (hentry chunk)
      obtain ⟨rows, hrows, hweight, hfull⟩ := ih (ordinal + 1) n hpair.coherent (hpair.index ▸ hid)
      refine ⟨_, hpair.trans hrows, ?_, fun hlong => ?_⟩
      · rw [List.singleton_append, weight_cons, hweight, List.length_cons]
        simp
        omega
      · rw [hfull (by simp at hlong; omega)]
        rfl

theorem length_chunkStatements (entry : String × String → Entry) (ordinal : Nat) (chunks : List (String × String)) :
    (chunkStatements id entry ordinal chunks).length = 2 * chunks.length := by
  induction chunks generalizing ordinal with
  | nil => rfl
  | cons chunk chunks ih =>
    rw [chunkStatements, List.length_cons, List.length_cons, ih, List.length_cons]
    omega

/-- The rows of a document come to these, and those of the others stay. -/
structure Sets (id : String) (rows : DocRows) (t t' : Tables) : Prop where
  coherent : Coherent t'
  others : ∀ other, other ≠ id → rowsOf other t' = rowsOf other t
  own : rowsOf id t' = rows

theorem sets_insertDocument (h : Coherent t) {d : Document} (hnone : t.index.documents.find? d.docId = none) :
    Sets d.docId ⟨some d, [], fun _ => false⟩ t (Statement.exec t (.insertDocument d)) := by
  have hfind (k : String) : (insertDocument d t.index).documents.find? k =
      if k = d.docId then some d else t.index.documents.find? k := Table.find?_overwrite _ _ (fun _ => rfl) k
  have hkept {k : String} (hk : (t.index.documents.find? k).isSome = true) :
      ((insertDocument d t.index).documents.find? k).isSome = true := by
    rw [hfind]
    split
    · rfl
    · exact hk
  refine ⟨{ h with listed := fun c hc => hkept (h.listed c hc), linked := fun l hl => hkept (h.linked l hl) }, ?_, ?_⟩
  · intro other hother
    ext1
    · exact (hfind other).trans (if_neg hother)
    · rfl
    · rfl
  · ext1
    · exact (hfind d.docId).trans (if_pos rfl)
    · change (t.chunks.filter _).map _ = []
      rw [List.map_eq_nil_iff, List.filter_eq_nil_iff]
      intro c hc hown
      have hlisted := h.listed c hc
      rw [of_decide_eq_true hown, hnone] at hlisted
      cases hlisted
    · funext source
      refine decide_eq_false fun hlink => ?_
      have hlinked := h.linked _ hlink
      rw [hnone] at hlinked
      cases hlinked

/-- The first statements of `_refresh_document_links`, where no link was there. -/
theorem linkStatements_take (h : Coherent t) (hid : (t.index.documents.find? id).isSome = true)
    (hnone : (rowsOf id t).cited = fun _ => false) (sources : List String) (n : Nat) :
    Sets id { rowsOf id t with cited := fun source => decide (source ∈ sources.take (n - 1)) } t
      (run ((linkStatements id sources).take n) t) := by
  match n with
  | 0 => exact ⟨h, fun _ _ => rfl, DocRows.ext rfl rfl (hnone.trans (by simp))⟩
  | k + 1 =>
    rw [linkStatements, List.take_succ_cons, ← List.map_take]
    change Sets id _ t (run (linkStatements id (sources.take k)) t)
    rw [run_linkStatements]
    refine ⟨{ h with linked := ?_ }, ?_, ?_⟩
    · rintro ⟨source, target⟩ hl
      have hl := mem_links_refresh.mp hl
      split at hl
      · rename_i htarget
        exact (congrArg (fun k => (t.index.documents.find? k).isSome) htarget).trans hid
      · exact h.linked _ hl
    · intro other hother
      refine DocRows.ext rfl rfl (funext fun source => ?_)
      exact decide_eq_decide.mpr (mem_links_refresh.trans (by rw [if_neg hother]))
    · refine DocRows.ext rfl rfl (funext fun source => ?_)
      exact decide_eq_decide.mpr (mem_links_refresh.trans (by rw [if_pos rfl, Nat.add_sub_cancel]))

/-- The rows of a document as `sync_file` writes them. -/
def written (b : Backend) (r : Reader) (key : Key) (p : Path) (rawText : String) (frontmatter : Dict) : DocRows where
  document := some (documentOf b key p rawText frontmatter)
  chunks := chunkRows (entryOf r key p rawText) 0 (r.chunks rawText)
  cited := fun source => decide (source ∈ (documentOf b key p rawText frontmatter).sources b)

/-- The rows behind the document's row and `n` more statements. -/
theorem insertions_take (h : Coherent t) (key : Key) (p : Path) (rawText : String) (frontmatter : Dict)
    (hnone : t.index.documents.find? (docIdOf key) = none) (n : Nat) :
    ∃ rows, Sets (docIdOf key) ⟨some (documentOf b key p rawText frontmatter), rows, fun source => decide (source ∈
        ((documentOf b key p rawText frontmatter).sources b).take (n - 2 * (r.chunks rawText).length - 1))⟩ t
        (run ((insertions b r key p rawText frontmatter).take (n + 1)) t) ∧
      weight rows = min n (2 * (r.chunks rawText).length) ∧
      (2 * (r.chunks rawText).length ≤ n → rows = (written b r key p rawText frontmatter).chunks) := by
  have hdocument := sets_insertDocument h (d := documentOf b key p rawText frontmatter) hnone
  obtain ⟨t₁, ht₁⟩ : ∃ t₁, t₁ = Statement.exec t (.insertDocument (documentOf b key p rawText frontmatter)) := ⟨_, rfl⟩
  rw [← ht₁] at hdocument
  have hid₁ : (t₁.index.documents.find? (docIdOf key)).isSome = true :=
    congrArg (fun rows : DocRows => rows.document.isSome) hdocument.own
  have hentry : ∀ chunk, (entryOf r key p rawText chunk).docId = docIdOf key := fun _ => rfl
  obtain ⟨rows, hgrown, hweight, hfull⟩ := chunkStatements_take hentry (r.chunks rawText) 0 n hdocument.coherent hid₁
  rw [show (documentOf b key p rawText frontmatter).docId = docIdOf key from rfl] at hdocument
  have hown := hgrown.own.trans (congrArg (fun own : DocRows => { own with chunks := own.chunks ++ rows }) hdocument.own)
  have hlinks := linkStatements_take hgrown.coherent (hgrown.index ▸ hid₁) (congrArg DocRows.cited hown)
    ((documentOf b key p rawText frontmatter).sources b) (n - 2 * (r.chunks rawText).length)
  have hrun : run ((insertions b r key p rawText frontmatter).take (n + 1)) t =
      run ((linkStatements (docIdOf key) ((documentOf b key p rawText frontmatter).sources b)).take
        (n - 2 * (r.chunks rawText).length))
        (run ((chunkStatements (docIdOf key) (entryOf r key p rawText) 0 (r.chunks rawText)).take n) t₁) := by
    rw [insertions, List.take_succ_cons, List.take_append, length_chunkStatements, ht₁, ← run_append]
    rfl
  rw [hrun]
  refine ⟨rows, ⟨hlinks.coherent, fun other hother => ?_, ?_⟩, hweight, hfull⟩
  · exact (hlinks.others other hother).trans ((hgrown.others other hother).trans (hdocument.others other hother))
  · rw [hlinks.own, hown]
    rfl

/-- All statements of `sync_file` on a document that is not there. -/
theorem sets_insertions (h : Coherent t) (key : Key) (p : Path) (rawText : String) (frontmatter : Dict)
    (hnone : t.index.documents.find? (docIdOf key) = none) :
    Sets (docIdOf key) (written b r key p rawText frontmatter) t (run (insertions b r key p rawText frontmatter) t) := by
  obtain ⟨rows, hsets, -, hfull⟩ := insertions_take (b := b) (r := r) h key p rawText frontmatter hnone
    (insertions b r key p rawText frontmatter).length
  have hlong : 2 * (r.chunks rawText).length + 1 + ((documentOf b key p rawText frontmatter).sources b).length ≤
      (insertions b r key p rawText frontmatter).length := by
    simp [insertions, linkStatements, length_chunkStatements]
    omega
  rw [List.take_of_length_le (Nat.le_succ _)] at hsets
  rw [hfull (by omega), List.take_of_length_le (by omega)] at hsets
  exact hsets

/-! ## One file -/

/-- The id that `sync_file` deletes the rows of. -/
def replaced (docId : String) (t : Tables) : List String := if (t.index.documents.find? docId).isSome then [docId] else []

/-- A document that has to be written. -/
theorem storeStatements_rows (h : Coherent t) (key : Key) (p : Path) (rawText : String) (frontmatter : Dict) :
    Coherent (run (storeStatements b r key p rawText (.dict frontmatter) t).1 t) ∧
      rowsOf (docIdOf key) (run (storeStatements b r key p rawText (.dict frontmatter) t).1 t) =
        written b r key p rawText frontmatter ∧
      ∀ other, other ≠ docIdOf key → rowsOf other (run (storeStatements b r key p rawText (.dict frontmatter) t).1 t) =
        (rowsOf other t).without (replaced (docIdOf key) t) := by
  unfold storeStatements replaced
  dsimp only
  rw [run_append]
  cases hfound : t.index.documents.find? (docIdOf key) with
  | none =>
    have hsets := sets_insertions (b := b) (r := r) h key p rawText frontmatter hfound
    exact ⟨hsets.coherent, hsets.own, fun other hother => (hsets.others other hother).trans (by simp)⟩
  | some d =>
    rw [Option.isSome_some, if_pos rfl, if_pos rfl, run_deletions]
    have hsets := sets_insertions (b := b) (r := r) (h.clear (docIdOf key)) key p rawText frontmatter
      ((find?_deleteDocRows _ _).trans (if_pos rfl))
    refine ⟨hsets.coherent, hsets.own, fun other hother => (hsets.others other hother).trans ?_⟩
    exact rowsOf_clear h hother

end
end DocumentRows
