import TandemAgents.JsonData
import Mathlib.Data.List.Chain

/-!
# Names in the knowledge base

Collections and documents are named by slugs, whatever their files are called. Naming a
name changes nothing.
-/
namespace KnowledgeText

open PythonText JsonData

set_option maxRecDepth 20000

/-- `[a-z0-9]`. -/
def isSlugChar (c : Char) : Bool := (48 ≤ c.toNat && c.toNat ≤ 57) || (97 ≤ c.toNat && c.toNat ≤ 122)

/-- `re.sub(r"[^a-z0-9]+", "-", text)`: the flag says that the previous character belonged
to a run already replaced. No two dashes stand side by side, so the next substitution of
`slugify` finds nothing. -/
def dashes : Bool → List Char → List Char
  | _, [] => []
  | inRun, c :: cs =>
    if isSlugChar c then c :: dashes false cs
    else if inRun then dashes true cs
    else '-' :: dashes true cs

/-- `PATH_SEPARATOR_PATTERN`. -/
def isSeparator (c : Char) : Bool := c = '\\' || c = '/'

def joinSlash (parts : List (List Char)) : List Char := List.intercalate ['/'] parts

/-- Slugs joined by slashes. -/
def slashed (slugs : List String) : String := String.ofList (joinSlash (slugs.map String.toList))

section
variable (py : Python)

/-- `slugify`. -/
@[irreducible] def slugify (value : String) : String :=
  stripBy (· = '-') (String.ofList (dashes false (py.lower (strip value)).toList))

/-- `normalize_collection_id`. -/
def normalizeCollectionId (value : String) : String := slugify py value

/-- `normalize_doc_slug`. -/
def normalizeDocSlug (value : String) : String := slugify py value

/-- The slugs of the parts of a path. A run of separators leaves empty parts, which have no slug. -/
def pathSlugs (text : String) : List String :=
  ((text.toList.splitOnP isSeparator).map (fun part => normalizeDocSlug py (String.ofList part))).filter (· ≠ "")

/-- `normalize_doc_path`. -/
@[irreducible] def normalizeDocPath (value : String) : String :=
  slashed (pathSlugs py (stripBy isSeparator (strip value)))

/-- `collection_document_id`. -/
def collectionDocumentId (collectionId slug : String) : String :=
  normalizeCollectionId py collectionId ++ "/" ++ normalizeDocPath py slug

/-! ## The sources a document names -/

/-- `normalize_text_list`. -/
def normalizeTextList : Json → List String
  | .str s =>
    ((s.toList.splitOnP (fun c => c = ',' || c = '\n')).map (fun part => strip (String.ofList part))).filter (· ≠ "")
  | .arr items => (items.map (fun item => strip (py.str item))).filter (· ≠ "")
  | _ => []

/-- The document one entry of `kb_source_docs` names. -/
def sourceDocId (collectionId value : String) : String :=
  if '/' ∈ value.toList then
    collectionDocumentId py (String.ofList (value.toList.takeWhile (· ≠ '/')))
      (String.ofList ((value.toList.dropWhile (· ≠ '/')).drop 1))
  else collectionDocumentId py collectionId value

/-- `_normalize_source_doc_ids`. -/
def normalizeSourceDocIds (collectionId : String) (sourceDocs : Json) : List String :=
  (normalizeTextList py sourceDocs).foldl (fun normalized item =>
    let value := stripBy (· = '/') (strip item)
    if value = "" then normalized
    else
      let id := sourceDocId py (normalizeCollectionId py collectionId) value
      if id ∈ normalized then normalized else normalized ++ [id]) []

end

/-! ## A slug is its own slug -/

/-- `str.lower` leaves ASCII texts without capitals alone. -/
def PlainLower (py : Python) : Prop :=
  ∀ s : String, (∀ c ∈ s.toList, c.toNat < 128 ∧ ¬ (65 ≤ c.toNat ∧ c.toNat ≤ 90)) → py.lower s = s

/-- Slug characters and dashes, no two dashes side by side. -/
structure Dashed (l : List Char) : Prop where
  chars : ∀ c ∈ l, isSlugChar c = true ∨ c = '-'
  apart : l.IsChain (fun a b => a ≠ '-' ∨ b ≠ '-')

theorem Dashed.part {l m : List Char} (h : Dashed m) (hl : l <:+: m) : Dashed l :=
  ⟨fun c hc => h.chars c (hl.subset hc), h.apart.infix hl⟩

theorem dashes_dashed (inRun : Bool) (l : List Char) :
    Dashed (dashes inRun l) ∧ (inRun = true → (dashes inRun l).head? ≠ some '-') := by
  induction l generalizing inRun with
  | nil => exact ⟨⟨by simp [dashes], by simp [dashes]⟩, by simp [dashes]⟩
  | cons c cs ih =>
    rw [dashes]
    split
    · rename_i hc
      have hdash : c ≠ '-' := by
        rintro rfl
        exact absurd hc (by decide)
      obtain ⟨hrest, -⟩ := ih false
      refine ⟨⟨?_, ?_⟩, fun _ => by simpa using hdash⟩
      · intro d hd
        obtain rfl | hd := List.mem_cons.mp hd
        · exact .inl hc
        · exact hrest.chars d hd
      · refine List.isChain_cons.mpr ⟨fun d _ => .inl hdash, hrest.apart⟩
    · obtain ⟨hrest, hhead⟩ := ih true
      split
      · exact ⟨hrest, fun _ => hhead rfl⟩
      · rename_i hrun
        refine ⟨⟨?_, ?_⟩, fun h => absurd h hrun⟩
        · intro d hd
          obtain rfl | hd := List.mem_cons.mp hd
          · exact .inr rfl
          · exact hrest.chars d hd
        · refine List.isChain_cons.mpr ⟨fun d hd => .inr ?_, hrest.apart⟩
          rintro rfl
          exact hhead rfl (by simpa using hd)

/-- Dashes that stand apart are left where they are. -/
theorem Dashed.dashes_eq {l : List Char} (h : Dashed l) (inRun : Bool) (hhead : inRun = true → l.head? ≠ some '-') :
    dashes inRun l = l := by
  induction l generalizing inRun with
  | nil => rfl
  | cons c cs ih =>
    obtain ⟨hnext, hchain⟩ := List.isChain_cons.mp h.apart
    have hcs : Dashed cs := ⟨fun d hd => h.chars d (List.mem_cons_of_mem c hd), hchain⟩
    rw [dashes]
    split
    · rw [ih hcs false (by simp)]
    · rename_i hc
      have hdash : c = '-' := (h.chars c List.mem_cons_self).resolve_left hc
      subst hdash
      have hrun : inRun ≠ true := fun hrun => hhead hrun rfl
      rw [if_neg hrun, ih hcs true ?_]
      intro _ hd
      exact absurd rfl ((hnext '-' (by simpa using hd)).resolve_left (by simp))

/-- What `slugify` returns. -/
structure Slug (s : String) : Prop where
  dashed : Dashed s.toList
  bare : stripBy (· = '-') s = s

theorem slugify_slug (py : Python) (value : String) : Slug (slugify py value) := by
  rw [slugify]
  refine ⟨Dashed.part (dashes_dashed false (py.lower (strip value)).toList).1 ?_, stripBy_idem _ _⟩
  have h := stripBy_infix (· = '-') (String.ofList (dashes false (py.lower (strip value)).toList))
  rwa [String.toList_ofList] at h

/-- The characters of a slug are ASCII, and neither capitals, blanks, separators nor dots. -/
theorem Slug.plain {s : String} (h : Slug s) {c : Char} (hc : c ∈ s.toList) :
    c.toNat < 128 ∧ ¬ (65 ≤ c.toNat ∧ c.toNat ≤ 90) ∧ isSpace c = false ∧ isSeparator c = false ∧ c ≠ '.' := by
  obtain hchar | rfl := h.dashed.chars c hc
  · have hrange : (48 ≤ c.toNat ∧ c.toNat ≤ 57) ∨ (97 ≤ c.toNat ∧ c.toNat ≤ 122) := by
      simpa [isSlugChar] using hchar
    have hother : ∀ d : Char, d.toNat < 48 ∨ (57 < d.toNat ∧ d.toNat < 97) → c ≠ d := by
      rintro d hd rfl
      omega
    refine ⟨by omega, by omega, ?_, ?_, hother '.' (by decide)⟩
    · simp only [isSpace, Bool.or_eq_false_iff, Bool.and_eq_false_iff, decide_eq_false_iff_not]
      omega
    · simp [isSeparator, hother '\\' (by decide), hother '/' (by decide)]
  · decide

theorem Slug.slugify_eq {py : Python} (hpy : PlainLower py) {s : String} (h : Slug s) : slugify py s = s := by
  have hstrip : strip s = s := stripBy_eq_self fun c hc => (h.plain hc).2.2.1
  have hlower : py.lower s = s := hpy s fun c hc => ⟨(h.plain hc).1, (h.plain hc).2.1⟩
  rw [slugify, hstrip, hlower, h.dashed.dashes_eq false (by simp), String.ofList_toList, h.bare]

/-! ## A normalized path is its own -/

/-- Slugs that name something. -/
def Named (slugs : List String) : Prop := ∀ slug ∈ slugs, Slug slug ∧ slug ≠ ""

theorem normalizeDocPath_slashed (py : Python) (value : String) :
    ∃ slugs, Named slugs ∧ normalizeDocPath py value = slashed slugs := by
  refine ⟨_, ?_, by rw [normalizeDocPath]⟩
  intro slug hslug
  obtain ⟨hmem, hne⟩ := List.mem_filter.mp hslug
  obtain ⟨part, -, rfl⟩ := List.mem_map.mp hmem
  exact ⟨slugify_slug py _, of_decide_eq_true hne⟩

theorem joinSlash_cons (part : List Char) {parts : List (List Char)} (hne : parts ≠ []) :
    joinSlash (part :: parts) = part ++ '/' :: joinSlash parts := by
  cases parts with
  | nil => exact absurd rfl hne
  | cons q parts => rfl

theorem mem_joinSlash {parts : List (List Char)} {c : Char} (h : c ∈ joinSlash parts) :
    c = '/' ∨ ∃ part ∈ parts, c ∈ part := by
  induction parts with
  | nil => cases h
  | cons part parts ih =>
    by_cases hne : parts = []
    · subst hne
      exact .inr ⟨part, List.mem_cons_self, by simpa [joinSlash] using h⟩
    · rw [joinSlash_cons part hne, List.mem_append, List.mem_cons] at h
      obtain h | rfl | h := h
      · exact .inr ⟨part, List.mem_cons_self, h⟩
      · exact .inl rfl
      · exact (ih h).imp_right fun ⟨q, hq, hc⟩ => ⟨q, List.mem_cons_of_mem part hq, hc⟩

/-- The ends of joined parts are ends of parts. -/
theorem joinSlash_ends {parts : List (List Char)} (hparts : ∀ part ∈ parts, part ≠ []) :
    (∀ c ∈ (joinSlash parts).head?, ∃ part ∈ parts, c ∈ part) ∧
      (∀ c ∈ (joinSlash parts).getLast?, ∃ part ∈ parts, c ∈ part) := by
  induction parts with
  | nil => simp [joinSlash]
  | cons part parts ih =>
    have hpart := hparts part List.mem_cons_self
    by_cases hne : parts = []
    · subst hne
      have hone : joinSlash [part] = part := by simp [joinSlash]
      rw [hone]
      exact ⟨fun c hc => ⟨part, List.mem_cons_self, List.mem_of_mem_head? hc⟩,
        fun c hc => ⟨part, List.mem_cons_self, List.mem_of_mem_getLast? hc⟩⟩
    · obtain ⟨-, hlast⟩ := ih fun q hq => hparts q (List.mem_cons_of_mem part hq)
      rw [joinSlash_cons part hne]
      constructor
      · intro c hc
        rw [List.head?_append_of_ne_nil _ hpart] at hc
        exact ⟨part, List.mem_cons_self, List.mem_of_mem_head? hc⟩
      · intro c hc
        have hrest : joinSlash parts ≠ [] := by
          cases parts with
          | nil => exact absurd rfl hne
          | cons q parts =>
            intro hnil
            refine hparts q (List.mem_cons_of_mem part List.mem_cons_self) ?_
            by_cases hp : parts = []
            · subst hp
              simpa [joinSlash] using hnil
            · rw [joinSlash_cons q hp] at hnil
              exact absurd hnil (by simp)
        have hcons : ('/' :: joinSlash parts).getLast? = (joinSlash parts).getLast? :=
          List.getLast?_cons_of_ne_nil hrest
        rw [List.getLast?_append_of_ne_nil _ (List.cons_ne_nil _ _), hcons] at hc
        obtain ⟨q, hq, hmem⟩ := hlast c hc
        exact ⟨q, List.mem_cons_of_mem part hq, hmem⟩

theorem splitOnP_joinSlash {p : Char → Bool} (hp : p '/' = true) {parts : List (List Char)} (hne : parts ≠ [])
    (h : ∀ part ∈ parts, ∀ c ∈ part, p c = false) : (joinSlash parts).splitOnP p = parts := by
  induction parts with
  | nil => exact absurd rfl hne
  | cons part parts ih =>
    have hpart := h part List.mem_cons_self
    by_cases hnil : parts = []
    · subst hnil
      have hone : joinSlash [part] = part := by simp [joinSlash]
      rw [hone]
      exact List.splitOnP_eq_singleton hpart
    · rw [joinSlash_cons part hnil, List.splitOnP_append_cons_of_forall_mem hpart '/' hp,
        ih hnil fun q hq => h q (List.mem_cons_of_mem part hq)]

theorem Named.normalizeDocPath_eq {py : Python} (hpy : PlainLower py) {slugs : List String} (h : Named slugs) :
    normalizeDocPath py (slashed slugs) = slashed slugs := by
  have hparts : ∀ part ∈ slugs.map String.toList, ∀ c ∈ part, isSpace c = false ∧ isSeparator c = false := by
    intro part hpart c hc
    obtain ⟨slug, hslug, rfl⟩ := List.mem_map.mp hpart
    obtain ⟨-, -, hspace, hsep, -⟩ := (h slug hslug).1.plain hc
    exact ⟨hspace, hsep⟩
  have hfull : ∀ part ∈ slugs.map String.toList, part ≠ [] := by
    intro part hpart
    obtain ⟨slug, hslug, rfl⟩ := List.mem_map.mp hpart
    intro hnil
    exact (h slug hslug).2 (String.toList_inj.mp hnil)
  have hstrip : strip (slashed slugs) = slashed slugs := by
    refine stripBy_eq_self fun c hc => ?_
    rw [slashed, String.toList_ofList] at hc
    obtain rfl | ⟨part, hpart, hc⟩ := mem_joinSlash hc
    · decide
    · exact (hparts part hpart c hc).1
  obtain ⟨hhead, hlast⟩ := joinSlash_ends hfull
  have hends : stripBy isSeparator (slashed slugs) = slashed slugs := by
    refine stripBy_eq_of_ends ?_ ?_
    · intro c hc
      rw [slashed, String.toList_ofList] at hc
      obtain ⟨part, hpart, hc⟩ := hhead c hc
      exact (hparts part hpart c hc).2
    · intro c hc
      rw [slashed, String.toList_ofList] at hc
      obtain ⟨part, hpart, hc⟩ := hlast c hc
      exact (hparts part hpart c hc).2
  have hslugs : pathSlugs py (slashed slugs) = slugs := by
    unfold pathSlugs
    by_cases hnil : slugs = []
    · subst hnil
      have hempty : normalizeDocSlug py "" = "" := by
        have hlower : (py.lower (strip "")).toList = [] := by
          have hstrip : strip "" = "" := by decide
          rw [hstrip, py.lower_empty]
          rfl
        rw [normalizeDocSlug, slugify, hlower]
        decide
      have hsplit : (slashed []).toList.splitOnP isSeparator = [[]] := by decide
      have hnone : String.ofList [] = "" := rfl
      rw [hsplit, List.map_singleton, hnone, hempty]
      rfl
    · have hsplit : (slashed slugs).toList.splitOnP isSeparator = slugs.map String.toList := by
        rw [slashed, String.toList_ofList]
        exact splitOnP_joinSlash (by decide) (by simpa using hnil) fun part hpart c hc => (hparts part hpart c hc).2
      have hmap : (slugs.map String.toList).map (fun part => normalizeDocSlug py (String.ofList part)) = slugs := by
        rw [List.map_map]
        refine (List.map_congr_left fun slug hslug => ?_).trans (List.map_id slugs)
        change slugify py (String.ofList slug.toList) = slug
        rw [String.ofList_toList]
        exact (h slug hslug).1.slugify_eq hpy
      rw [hsplit, hmap]
      exact List.filter_eq_self.mpr fun slug hslug => decide_eq_true (h slug hslug).2
  rw [normalizeDocPath, hstrip, hends, hslugs]

/-- The path of a document is the path it is normalized to. -/
theorem normalizeDocPath_idem {py : Python} (hpy : PlainLower py) (value : String) :
    normalizeDocPath py (normalizeDocPath py value) = normalizeDocPath py value := by
  obtain ⟨slugs, hnamed, hvalue⟩ := normalizeDocPath_slashed py value
  rw [hvalue]
  exact hnamed.normalizeDocPath_eq hpy

theorem normalizeCollectionId_idem {py : Python} (hpy : PlainLower py) (value : String) :
    normalizeCollectionId py (normalizeCollectionId py value) = normalizeCollectionId py value :=
  (slugify_slug py value).slugify_eq hpy

/-- A document is known by its collection and its path. -/
theorem docId_inj {c c' p p' : String} (hc : Slug c) (hc' : Slug c') (h : c ++ "/" ++ p = c' ++ "/" ++ p') :
    c = c' ∧ p = p' := by
  have hchars := congrArg String.toList h
  have hslash : "/".toList = ['/'] := rfl
  simp only [String.toList_append, hslash, List.append_assoc, List.singleton_append] at hchars
  have hfront : ∀ s t : String, Slug s →
      (s.toList ++ '/' :: t.toList).takeWhile (fun c => ! isSeparator c) = s.toList := by
    intro s t hs
    rw [List.takeWhile_append_of_pos, List.takeWhile_cons]
    · simp [isSeparator]
    · intro c hc
      simpa using (hs.plain hc).2.2.2.1
  have heq : c.toList = c'.toList := by rw [← hfront c p hc, hchars, hfront c' p' hc']
  rw [heq] at hchars
  exact ⟨String.toList_inj.mp heq, String.toList_inj.mp (List.cons.inj (List.append_cancel_left hchars)).2⟩

/-- A language that lowers ASCII letters, which is what `lower` does to ASCII texts. -/
def asciiPython : Python where
  lower s := String.ofList (s.toList.map asciiLower)
  repr _ := ""
  lower_empty := asciiLower_empty

theorem asciiPython_plain : PlainLower asciiPython := by
  intro s hs
  have hmap : s.toList.map asciiLower = s.toList := by
    refine (List.map_congr_left fun c hc => ?_).trans (List.map_id s.toList)
    have hrange := (hs c hc).2
    rw [asciiLower, if_neg (by simpa using hrange)]
    rfl
  change String.ofList (s.toList.map asciiLower) = s
  rw [hmap, String.ofList_toList]

end KnowledgeText
