import TandemAgents.Keyring

/-!
# The history of a keyring

Each call checks one step against the document in place. Documents that were installed one
after the other, however far apart, keep their keys: the later one has every key of the
earlier one, no more usable than it was.
-/
namespace KeyringHistory

open PythonText JsonData JsonText JsonHooks JsonRoundTrip JsonCanonical Base64 Keyring

set_option maxRecDepth 20000

/-! ## What is kept of a key -/

/-- The fields that say what a key is for. -/
def scopeFields : List String :=
  ["purpose", "deployment_id", "organization_id", "allowed_audiences", "allowed_resource_scope_prefixes",
    "kms_key_reference"]

/-- The decoded key of an entry. -/
def publicKey (entry : Dict) : Option (List Nat) := decodeKey true (entry.get "public_key")

/-- The same key for the same purpose, whose status has not gone back and whose window has not
grown. -/
structure Kept (before after : Dict) : Prop where
  key : publicKey after = publicKey before
  scope : ∀ name ∈ scopeFields, after.get name = before.get name
  status : statusRank (before.get "status") ≤ statusRank (after.get "status")
  notBefore : notBefore before ≤ notBefore after
  notAfter : notAfter after ≤ notAfter before

/-- The entry of a key id. -/
def entryOf (document : Json) (kid : String) : Option Dict :=
  let d := document.asDict.getD []
  if d.contains kid then (d.get kid).asDict else none

/-- Every key of the earlier document is kept in the later one. -/
def Succeeds (earlier later : Json) : Prop :=
  ∀ kid before, entryOf earlier kid = some before → ∃ after, entryOf later kid = some after ∧ Kept before after

theorem Kept.trans {a b c : Dict} (h : Kept a b) (h' : Kept b c) : Kept a c where
  key := h'.key.trans h.key
  scope name hname := (h'.scope name hname).trans (h.scope name hname)
  status := le_trans h.status h'.status
  notBefore := le_trans h.notBefore h'.notBefore
  notAfter := le_trans h'.notAfter h.notAfter

theorem Succeeds.trans {a b c : Json} (h : Succeeds a b) (h' : Succeeds b c) : Succeeds a c := by
  intro kid before hbefore
  obtain ⟨between, hbetween, hkept⟩ := h kid before hbefore
  obtain ⟨after, hafter, hkept'⟩ := h' kid between hbetween
  exact ⟨after, hafter, hkept.trans hkept'⟩

/-- Entries of the same fields. -/
theorem Kept.of_get {before after : Dict} (h : ∀ name, after.get name = before.get name) : Kept before after where
  key := by rw [publicKey, publicKey, h]
  scope name _ := h name
  status := by rw [h]
  notBefore := by rw [Keyring.notBefore, Keyring.notBefore, h]
  notAfter := by rw [Keyring.notAfter, Keyring.notAfter, h]

/-! ## Values that are compared -/

/-- Texts, lists of texts, whole numbers and `None`: they are equal if they are the same, and
have nothing in them to sort. -/
inductive Plain : Json → Prop where
  | null : Plain .null
  | int (n : Int) : Plain (.int n)
  | str (s : String) : Plain (.str s)
  | strs (ss : List String) : Plain (.arr (ss.map .str))

theorem Plain.sorted {v : Json} (h : Plain v) : sortKeys v = v := by
  cases h with
  | null | int | str => rfl
  | strs ss =>
    rw [sortKeys, sortItems_eq, List.map_map]
    rfl

theorem same_strs {ss : List String} {ws : List Json} (h : sameItems (ss.map .str) ws = true) : ws = ss.map .str := by
  induction ss generalizing ws with
  | nil =>
    cases ws with
    | nil => rfl
    | cons w ws => cases h
  | cons s ss ih =>
    cases ws with
    | nil => cases h
    | cons w ws =>
      rw [List.map_cons, sameItems, Bool.and_eq_true] at h
      rw [ih h.2]
      cases w with
      | str t => rw [of_decide_eq_true h.1, List.map_cons]
      | null | bool | int | float | arr | obj => cases h.1

/-- A text, a list of texts or `None` equals itself alone. -/
theorem Plain.same {v w : Json} (h : Plain v) (hint : ∀ n, v ≠ .int n) (hsame : same v w = true) : w = v := by
  cases h with
  | null => cases w <;> first | rfl | cases hsame
  | int n => exact absurd rfl (hint n)
  | str s =>
    cases w with
    | str t => rw [of_decide_eq_true hsame]
    | null | bool | int | float | arr | obj => cases hsame
  | strs ss =>
    cases w with
    | arr ws => rw [same_strs hsame]
    | null | bool | int | float | str | obj => cases hsame

theorem isStrings_plain {v : Json} (h : isStrings v = true) : ∃ ss : List String, v = .arr (ss.map .str) := by
  cases v with
  | arr items =>
    refine ⟨items.filterMap Json.asStr, ?_⟩
    rw [isStrings, List.all_eq_true] at h
    congr 1
    induction items with
    | nil => rfl
    | cons v items ih =>
      obtain ⟨s, hs⟩ := Option.isSome_iff_exists.mp (h v List.mem_cons_self)
      rw [List.filterMap_cons_some hs, List.map_cons, ← ih fun w hw => h w (List.mem_cons_of_mem v hw)]
      rw [← isText_eq (decide_eq_true hs)]
  | null | bool | int | float | str | obj => cases h

/-! ## Documents that are validated -/

/-- What `validate_document` says of an entry, as far as a transition needs it. -/
structure GoodEntry (entry : Dict) : Prop where
  key : publicKey entry ≠ none
  sorted : ∀ name, sortKeys (entry.get name) = entry.get name
  scope : ∀ name ∈ scopeFields, Plain (entry.get name) ∧ ∀ n, entry.get name ≠ .int n

/-- A document of such entries. -/
def Good (document : Json) : Prop :=
  ∃ d, document = .obj d ∧ ∀ f ∈ d, ∃ entry, f.2 = .obj entry ∧ GoodEntry entry

theorem isTimestamp_plain {v : Json} (h : isTimestamp v = true) : Plain v := by
  cases v with
  | null => exact .null
  | int n => exact .int n
  | bool | float | str | arr | obj => cases h

theorem goodEntry {deploymentId organizationId audience : String} {field : String × Json}
    (hentry : validateEntry deploymentId organizationId audience field = .ok ())
    (hmetadata : validateMetadata field = .ok ()) : ∃ entry, field.2 = .obj entry ∧ GoodEntry entry := by
  unfold validateEntry at hentry
  unfold validateMetadata at hmetadata
  simp only [check_bind_ok, require_ok, Bool.and_eq_true, decide_eq_true_eq] at hentry hmetadata
  obtain ⟨⟨-, hdict⟩, ⟨⟨⟨⟨hpurpose, hdeployment⟩, horganization⟩, haudience⟩, hstatus⟩, hkey⟩ := hentry
  obtain ⟨-, hfields, ⟨hfirst, hlast⟩, -, hprefixes, hreference⟩ := hmetadata
  cases hv : field.2 with
  | null | bool | int | float | str | arr =>
    rw [hv] at hdict
    cases hdict
  | obj entry =>
    rw [hv, Json.asDict_obj, Option.getD_some] at hpurpose hdeployment horganization haudience hstatus hkey
    rw [hv, Json.asDict_obj, Option.getD_some] at hfields hfirst hlast hprefixes hreference
    have htext : ∀ name s, isText (Dict.get entry name) s = true →
        Plain (Dict.get entry name) ∧ ∀ n, Dict.get entry name ≠ .int n := by
      intro name s h
      rw [isText_eq h]
      exact ⟨.str s, fun n => nofun⟩
    have hscope : ∀ name ∈ scopeFields, Plain (Dict.get entry name) ∧ ∀ n, Dict.get entry name ≠ .int n := by
      intro name hname
      simp only [scopeFields, List.mem_cons, List.not_mem_nil, or_false] at hname
      obtain rfl | rfl | rfl | rfl | rfl | rfl := hname
      · exact htext _ _ hpurpose
      · exact htext _ _ hdeployment
      · exact htext _ _ horganization
      · split at haudience
        · rename_i a ha
          rw [ha, isText_eq haudience]
          exact ⟨.strs [audience], fun n => nofun⟩
        · cases haudience
      · obtain hnone | hstrings := Bool.or_eq_true_iff.mp hprefixes
        · rw [Dict.get_of_not_contains (by simpa using hnone)]
          exact ⟨.null, fun n => nofun⟩
        · obtain ⟨ss, hss⟩ := isStrings_plain hstrings
          rw [hss]
          exact ⟨.strs ss, fun n => nofun⟩
      · cases href : Dict.get entry "kms_key_reference" with
        | null => exact ⟨.null, fun n => nofun⟩
        | str s => exact ⟨.str s, fun n => nofun⟩
        | bool | int | float | arr | obj =>
          rw [href] at hreference
          cases hreference
    have hpublic : publicKey entry ≠ none := by
      intro hnone
      rw [publicKey] at hnone
      rw [hnone] at hkey
      cases hkey
    refine ⟨entry, rfl, hpublic, fun name => ?_, hscope⟩
    -- a field is one of those that were checked, or it is not there
    cases hthere : Dict.contains entry name with
    | false => rw [Dict.get_of_not_contains hthere, sortKeys]
    | true =>
      have hallowed : name ∈ allowedFields := by
        have hmem := Dict.mem_of_contains hthere
        exact of_decide_eq_true (List.all_eq_true.mp hfields _ hmem)
      by_cases hname : name ∈ scopeFields
      · exact (hscope name hname).1.sorted
      · have hrest : name = "public_key" ∨ name = "status" ∨ name = "not_before_ms" ∨ name = "not_after_ms" := by
          simp only [allowedFields, scopeFields, List.mem_cons, List.not_mem_nil, or_false] at hallowed hname
          tauto
        obtain rfl | rfl | rfl | rfl := hrest
        · cases hk : Dict.get entry "public_key" with
          | str s => rw [sortKeys]
          | null | bool | int | float | arr | obj =>
            rw [publicKey, hk] at hpublic
            exact absurd rfl hpublic
        · obtain (h | h) | h := by simpa only [Bool.or_eq_true] using hstatus
          all_goals exact (htext _ _ h).1.sorted
        · exact (isTimestamp_plain hfirst).sorted
        · exact (isTimestamp_plain hlast).sorted

theorem good_of_validate {document : Json} {deploymentId organizationId : String}
    (h : validateDocument document deploymentId organizationId = .ok ()) : Good document := by
  unfold validateDocument validateKeyring at h
  simp only [check_bind_ok, require_ok] at h
  obtain ⟨⟨hdict, hentries, -⟩, -, hmetadata⟩ := h
  cases document with
  | obj d => exact ⟨d, rfl, fun f hf => goodEntry (checkAll_ok hentries f hf) (checkAll_ok hmetadata f hf)⟩
  | null | bool | int | float | str | arr => cases hdict

/-! ## The same document in another order -/

section
variable {floats : Floats} {document earlier later : Json}

theorem entryOf_obj (d : Dict) (kid : String) :
    entryOf (.obj d) kid = if d.contains kid then (d.get kid).asDict else none := rfl

/-- An entry of a good document. -/
theorem entryOf_good (h : Good document) {kid : String} {entry : Dict} (hentry : entryOf document kid = some entry) :
    GoodEntry entry ∧ (kid, .obj entry) ∈ document.asDict.getD [] := by
  obtain ⟨d, rfl, hd⟩ := h
  rw [Json.asDict_obj, Option.getD_some]
  rw [entryOf_obj] at hentry
  split at hentry
  · rename_i hthere
    have hmem := Dict.mem_of_contains hthere
    obtain ⟨entry', hobj, hgood⟩ := hd _ hmem
    dsimp only at hobj
    rw [hobj] at hentry hmem
    cases hentry
    exact ⟨hgood, hmem⟩
  · cases hentry

theorem entryOf_of_contains (h : Good document) {kid : String}
    (hthere : (document.asDict.getD []).contains kid = true) :
    ∃ entry, entryOf document kid = some entry ∧ Dict.get (document.asDict.getD []) kid = .obj entry := by
  obtain ⟨d, rfl, hd⟩ := h
  rw [Json.asDict_obj, Option.getD_some] at hthere ⊢
  obtain ⟨entry, hobj, -⟩ := hd _ (Dict.mem_of_contains hthere)
  dsimp only at hobj
  refine ⟨entry, ?_, hobj⟩
  rw [entryOf_obj, if_pos hthere, hobj]
  rfl

theorem entryOf_sortKeys {d : Dict} (hvalid : Valid floats (.obj d)) (kid : String) :
    entryOf (sortKeys (.obj d)) kid =
      (entryOf (.obj d) kid).map (fun entry => sortFields (sortValues entry)) := by
  cases hvalid with
  | obj hkeys hfields =>
    obtain ⟨hget, hcontains⟩ := get_sortFields hkeys kid
    rw [sortKeys, entryOf_obj, entryOf_obj, hget, hcontains]
    split
    · cases Dict.get d kid <;> rfl
    · rfl

theorem keys_nodup {d : Dict} (hvalid : Valid floats (.obj d)) {kid : String} {entry : Dict}
    (hmem : (kid, .obj entry) ∈ d) : (entry.map Prod.fst).Nodup := by
  cases hvalid with
  | obj _ hfields =>
    cases hfields _ hmem with
    | obj hkeys _ => exact hkeys

/-- Sorting keeps every key, and so does undoing it. -/
theorem succeeds_sortKeys (hvalid : Valid floats document) (hgood : Good document) :
    Succeeds document (sortKeys document) ∧ Succeeds (sortKeys document) document := by
  obtain ⟨d, rfl, hd⟩ := id hgood
  have hget : ∀ kid entry, entryOf (.obj d) kid = some entry →
      ∀ name, (sortFields (sortValues entry)).get name = entry.get name := by
    intro kid entry hentry name
    obtain ⟨hentryGood, hmem⟩ := entryOf_good hgood hentry
    rw [(get_sortFields (keys_nodup hvalid hmem) name).1, hentryGood.sorted]
  constructor
  · intro kid before hbefore
    refine ⟨_, by rw [entryOf_sortKeys hvalid, hbefore]; rfl, ?_⟩
    exact .of_get (hget kid before hbefore)
  · intro kid before hbefore
    rw [entryOf_sortKeys hvalid] at hbefore
    obtain ⟨entry, hentry, rfl⟩ := Option.map_eq_some_iff.mp hbefore
    exact ⟨entry, hentry, .of_get fun name => (hget kid entry hentry name).symm⟩

/-- Documents of one canonical text. -/
theorem succeeds_of_text (hearlier : Valid floats earlier) (hgood : Good earlier) (hlater : Valid floats later)
    (hgood' : Good later) (h : canonicalText earlier = canonicalText later) : Succeeds earlier later := by
  have hsorted : sortKeys earlier = sortKeys later :=
    compact_inj (sortKeys_valid hearlier) (sortKeys_valid hlater) h
  have hback := (succeeds_sortKeys hlater hgood').2
  rw [← hsorted] at hback
  exact (succeeds_sortKeys hearlier hgood).1.trans hback

end

/-! ## A transition -/

theorem get_immutable (entry : Dict) {name : String}
    (h : name ∉ ["status", "not_before_ms", "not_after_ms", "public_key"]) :
    (immutable entry).get name = entry.get name := by
  unfold immutable
  induction entry with
  | nil => rfl
  | cons f entry ih =>
    obtain ⟨k, v⟩ := f
    rw [List.filter_cons]
    split
    · rw [Dict.get_cons, Dict.get_cons, ih]
    · rename_i hk
      rw [ih, Dict.get_cons, if_neg]
      rintro rfl
      exact hk (decide_eq_true h)

theorem sameFields_mem {d e : Dict} (h : sameFields d e = true) {k : String} {v : Json} (hmem : (k, v) ∈ d) :
    e.contains k = true ∧ same v (e.get k) = true := by
  induction d with
  | nil => cases hmem
  | cons f d ih =>
    obtain ⟨k', v'⟩ := f
    rw [sameFields, Bool.and_eq_true, Bool.and_eq_true] at h
    obtain heq | hmem := List.mem_cons.mp hmem
    · cases heq
      exact h.1
    · exact ih h.2 hmem

/-- Equal dictionaries have the same keys. -/
theorem same_contains {d e : Dict} (hd : (d.map Prod.fst).Nodup) (h : same (.obj d) (.obj e) = true) {k : String}
    (hk : e.contains k = true) : d.contains k = true := by
  rw [same, Bool.and_eq_true, decide_eq_true_eq] at h
  have hsub : d.map Prod.fst ⊆ e.map Prod.fst := by
    intro k hk
    obtain ⟨f, hf, rfl⟩ := List.mem_map.mp hk
    exact contains_iff.mp (sameFields_mem h.2 hf).1
  have hperm := (List.subperm_of_subset hd hsub).perm_of_length_le (by simp [h.1])
  exact contains_iff.mpr (hperm.mem_iff.mpr (contains_iff.mp hk))

theorem get_of_same {before after : Dict} (hkeys : (before.map Prod.fst).Nodup)
    (hsame : same (.obj (immutable before)) (.obj (immutable after)) = true) {name : String}
    (hname : name ∉ ["status", "not_before_ms", "not_after_ms", "public_key"])
    (hplain : Plain (before.get name) ∧ ∀ n, before.get name ≠ .int n) : after.get name = before.get name := by
  rw [← get_immutable after hname, ← get_immutable before hname] at *
  cases hthere : (immutable before).contains name with
  | true =>
    have hfields := hsame
    rw [same, Bool.and_eq_true] at hfields
    exact hplain.1.same hplain.2 (sameFields_mem hfields.2 (Dict.mem_of_contains hthere)).2
  | false =>
    rw [Dict.get_of_not_contains hthere, Dict.get_of_not_contains]
    rw [Bool.eq_false_iff]
    intro hafter
    have hnodup : ((immutable before).map Prod.fst).Nodup := hkeys.sublist (List.filter_sublist.map _)
    rw [same_contains hnodup hsame hafter] at hthere
    cases hthere

/-- A transition keeps every key. -/
theorem succeeds_of_transition {floats : Floats} {previous proposed : Json} (hvalid : Valid floats previous)
    (hprevious : Good previous) (hproposed : Good proposed) (h : validateTransition previous proposed = .ok ()) :
    Succeeds previous proposed := by
  intro kid before hbefore
  obtain ⟨hgood, hmem⟩ := entryOf_good hprevious hbefore
  have hstep := checkAll_ok h _ hmem
  unfold validateStep at hstep
  simp only [check_bind_ok, require_ok, Bool.and_eq_true, decide_eq_true_eq] at hstep
  obtain ⟨hthere, hstatus, ⟨hsame, hkey⟩, hfirst, hlast⟩ := hstep
  obtain ⟨after, hafter, hget⟩ := entryOf_of_contains hproposed hthere
  rw [hget, Json.asDict_obj, Json.asDict_obj, Option.getD_some, Option.getD_some] at hstatus hsame hkey hfirst hlast
  have hkeys : (before.map Prod.fst).Nodup := by
    obtain ⟨d, rfl, -⟩ := hprevious
    exact keys_nodup hvalid hmem
  refine ⟨after, hafter, ?_, fun name hname => ?_, hstatus, hfirst, hlast⟩
  · -- both keys decode strictly, and then to what they decode to here
    obtain ⟨bytes, hbytes⟩ := Option.ne_none_iff_exists'.mp hgood.key
    obtain ⟨bytes', hbytes'⟩ := Option.ne_none_iff_exists'.mp (entryOf_good hproposed hafter).1.key
    have hlenient : ∀ (entry : Dict) bytes, publicKey entry = some bytes →
        decodeKey false (entry.get "public_key") = some bytes := by
      intro entry bytes hbytes
      rw [publicKey, decodeKey] at hbytes
      obtain ⟨s, hs, hdecode⟩ := Option.bind_eq_some_iff.mp hbytes
      rw [decodeKey, hs, Option.bind_some]
      exact b64decode_lenient hdecode
    rw [hlenient before bytes hbytes, hlenient after bytes' hbytes'] at hkey
    rw [hbytes, hbytes', hkey]
  · refine get_of_same hkeys hsame ?_ (hgood.scope name hname)
    simp only [scopeFields, List.mem_cons, List.not_mem_nil, or_false] at hname
    obtain rfl | rfl | rfl | rfl | rfl | rfl := hname <;> decide

/-! ## One call -/

section
variable {floats : Floats} {sha256 : List Char → String} {c : Call} {file : Option (List Char)} {text : List Char}

/-- What a call that replaces the file has checked: there was no file and none was expected, or
the document in place is the proposed one or one it may follow, of the expected fingerprint. -/
theorem install_writes {result : Except String Receipt}
    (h : installKeyring floats sha256 c file = (some text, result)) :
    text = render c.proposed ∧
      validateDocument c.proposed c.bundle.deploymentId c.bundle.organizationId = .ok () ∧
      (file = none ∧ c.expected = none ∨
        ∃ raw previous, file = some raw ∧ parseDocument floats raw = .ok previous ∧ Good previous ∧
          (fingerprint sha256 previous = fingerprint sha256 c.proposed ∨
            (∀ expected, c.expected = some expected → expected = fingerprint sha256 previous) ∧
              validateTransition previous c.proposed = .ok ())) := by
  unfold installKeyring at h
  cases hdecide : decideCall floats sha256 c file with
  | error message =>
    rw [hdecide] at h
    cases h
  | ok receipt =>
    rw [hdecide] at h
    have htext : text = render c.proposed := by
      dsimp only at h
      split at h
      · split at h <;> cases h <;> rfl
      · cases h
    refine ⟨htext, ?_⟩
    unfold decideCall at hdecide
    rw [check_bind_ok, bind_ok] at hdecide
    obtain ⟨hhost, previous, hprevious, hdecide⟩ := hdecide
    unfold checkHost at hhost
    simp only [check_bind_ok, require_ok] at hhost
    refine ⟨hhost.2.2.1, ?_⟩
    cases file with
    | none =>
      have hnone : previous = none := by
        rw [readPrevious] at hprevious
        split at hprevious
        · cases hprevious
        · exact (Except.ok.inj hprevious).symm
      subst hnone
      rw [Option.map_none, if_neg (by simp), check_bind_ok, require_ok, decide_eq_true_eq, or_self] at hdecide
      exact .inl ⟨rfl, hdecide.1⟩
    | some raw =>
      rw [readPrevious, check_bind_ok, bind_ok] at hprevious
      obtain ⟨-, document, hparse, hprevious⟩ := hprevious
      rw [check_bind_ok] at hprevious
      obtain ⟨hvalidate, hprevious⟩ := hprevious
      obtain rfl := Except.ok.inj hprevious
      refine .inr ⟨raw, document, rfl, hparse, good_of_validate hvalidate, ?_⟩
      by_cases hsame : fingerprint sha256 document = fingerprint sha256 c.proposed
      · exact .inl hsame
      · dsimp only [Option.map_some] at hdecide
        rw [if_neg (fun h => hsame (Option.some.inj h)), check_bind_ok, require_ok, decide_eq_true_eq, check_bind_ok,
          checkNext] at hdecide
        obtain ⟨hexpected, htransition, -⟩ := hdecide
        refine .inr ⟨fun expected he => ?_, htransition⟩
        obtain hnone | hbefore := hexpected
        · rw [he] at hnone
          cases hnone
        · rw [he] at hbefore
          exact Option.some.inj hbefore

/-- What was written is read back, with its keys in order. -/
theorem parse_render {document previous : Json} (hvalid : Valid floats document)
    (h : parseDocument floats (render document) = .ok previous) : previous = sortKeys document := by
  unfold parseDocument at h
  split at h
  · cases h
  · rw [render, loadsBy_dumps unique_takesNew (sortKeys_valid hvalid)] at h
    exact (Except.ok.inj h).symm

end

/-! ## Every history -/

section
variable {floats : Floats} {sha256 : List Char → String} {calls : List Call} {s : State}

/-- The file is the last document that was installed, and every document that was installed
is kept in those behind it. -/
structure Sound (floats : Floats) (calls : List Call) (s : State) : Prop where
  file : s.file = s.installed.getLast?.map render
  documents : ∀ document ∈ s.installed, document ∈ calls.map Call.proposed ∧ Good document
  kept : s.installed.Pairwise Succeeds

/-- The documents of the calls are values of the language, and no two of them have one digest. -/
structure Proper (floats : Floats) (sha256 : List Char → String) (calls : List Call) : Prop where
  valid : ∀ c ∈ calls, Valid floats c.proposed
  digests : ∀ c ∈ calls, ∀ c' ∈ calls, fingerprint sha256 c.proposed = fingerprint sha256 c'.proposed →
    canonicalText c.proposed = canonicalText c'.proposed

theorem Proper.valid_of_mem (h : Proper floats sha256 calls) {document : Json}
    (hmem : document ∈ calls.map Call.proposed) : Valid floats document := by
  obtain ⟨c, hc, rfl⟩ := List.mem_map.mp hmem
  exact h.valid c hc

theorem fingerprint_sortKeys {document : Json} (h : Valid floats document) :
    fingerprint sha256 (sortKeys document) = fingerprint sha256 document := by
  rw [fingerprint, canonicalText, sortKeys_sortKeys h]
  rfl

/-- A document that is installed keeps what the file held. -/
theorem succeeds_installed (hproper : Proper floats sha256 calls) (hsound : Sound floats calls s) {c : Call}
    (hc : c ∈ calls) {last : Json} (hlast : s.installed.getLast? = some last) {previous : Json}
    (hgood : Good previous) (hproposed : Good c.proposed) (hparse : parseDocument floats (render last) = .ok previous)
    (h : fingerprint sha256 previous = fingerprint sha256 c.proposed ∨
      validateTransition previous c.proposed = .ok ()) : Succeeds last c.proposed := by
  obtain ⟨hmem, hlastGood⟩ := hsound.documents last (List.mem_of_getLast? hlast)
  have hvalid := hproper.valid_of_mem hmem
  obtain rfl := parse_render hvalid hparse
  obtain hsame | htransition := h
  · rw [fingerprint_sortKeys hvalid] at hsame
    obtain ⟨c', hc', rfl⟩ := List.mem_map.mp hmem
    exact succeeds_of_text hvalid hlastGood (hproper.valid c hc) hproposed (hproper.digests c' hc' c hc hsame)
  · exact (succeeds_sortKeys hvalid hlastGood).1.trans
      (succeeds_of_transition (sortKeys_valid hvalid) hgood hproposed htransition)

theorem sound_step (hproper : Proper floats sha256 calls) (hsound : Sound floats calls s) {c : Call} (hc : c ∈ calls) :
    Sound floats calls (step floats sha256 s c) := by
  unfold step
  cases hinstall : installKeyring floats sha256 c s.file with
  | mk written result =>
    cases written with
    | none => exact hsound
    | some text =>
      obtain ⟨rfl, hvalidate, hcase⟩ := install_writes hinstall
      have hgood := good_of_validate hvalidate
      refine ⟨?_, ?_, ?_⟩
      · change some (render c.proposed) = ((s.installed ++ [c.proposed]).getLast?).map render
        rw [List.getLast?_append, List.getLast?_singleton]
        rfl
      · intro document hmem
        obtain hmem | hmem := List.mem_append.mp hmem
        · exact hsound.documents document hmem
        · rw [List.mem_singleton.mp hmem]
          exact ⟨List.mem_map_of_mem hc, hgood⟩
      · refine List.pairwise_append.mpr ⟨hsound.kept, List.pairwise_singleton _ _, fun document hmem later hlater => ?_⟩
        rw [List.mem_singleton.mp hlater]
        have hne : s.installed ≠ [] := List.ne_nil_of_mem hmem
        obtain ⟨last, hlast⟩ := Option.isSome_iff_exists.mp (List.getLast?_isSome.mpr hne)
        have hfile := hsound.file
        rw [hlast, Option.map_some] at hfile
        obtain ⟨hnone, -⟩ | ⟨raw, previous, hraw, hparse, hprevious, hnext⟩ := hcase
        · rw [hnone] at hfile
          cases hfile
        · rw [hraw] at hfile
          obtain rfl := Option.some.inj hfile
          have hlater := succeeds_installed hproper hsound hc hlast hprevious hgood hparse (hnext.imp_right And.right)
          -- the last document keeps the one before it, or is that one
          by_cases heq : document = last
          · rw [heq]
            exact hlater
          · refine Succeeds.trans ?_ hlater
            obtain ⟨front, hfront⟩ := List.getLast?_eq_some_iff.mp hlast
            have hkept := hsound.kept
            rw [hfront] at hkept hmem
            refine (List.pairwise_append.mp hkept).2.2 document ?_ last (List.mem_singleton.mpr rfl)
            exact (List.mem_append.mp hmem).resolve_right fun h => heq (List.mem_singleton.mp h)

/-- Every state a host comes to. -/
theorem sound_run (hproper : Proper floats sha256 calls) (cs : List Call) (hcs : ∀ c ∈ cs, c ∈ calls) :
    Sound floats calls (run floats sha256 cs) := by
  have hstart : Sound floats calls ⟨none, []⟩ := ⟨rfl, by simp, List.Pairwise.nil⟩
  unfold run
  generalize (⟨none, []⟩ : State) = start at hstart
  induction cs generalizing start with
  | nil => exact hstart
  | cons c cs ih =>
    exact ih (fun d hd => hcs d (List.mem_cons_of_mem c hd)) _ (sound_step hproper hstart (hcs c List.mem_cons_self))

end

/-- Whatever is proposed to a host, each document that is installed keeps every key of those
installed before it, and a call that expects a document changes the file only where it is that
document it replaces. -/
theorem history_monotone (floats : Floats) (sha256 : List Char → String) (calls : List Call)
    (hproper : Proper floats sha256 calls) :
    (run floats sha256 calls).installed.Pairwise Succeeds ∧
      ∀ front c back, calls = front ++ c :: back → ∀ expected, c.expected = some expected →
        (step floats sha256 (run floats sha256 front) c).file ≠ (run floats sha256 front).file →
          ∃ raw previous, (run floats sha256 front).file = some raw ∧ parseDocument floats raw = .ok previous ∧
            fingerprint sha256 previous = expected := by
  refine ⟨(sound_run hproper calls fun _ h => h).kept, ?_⟩
  rintro front c back rfl expected hexpected hchanged
  have hc : c ∈ front ++ c :: back := List.mem_append_right front List.mem_cons_self
  have hsound := sound_run hproper front fun d hd => List.mem_append_left _ hd
  generalize run floats sha256 front = s at hsound hchanged
  unfold step at hchanged
  cases hinstall : installKeyring floats sha256 c s.file with
  | mk written result =>
    rw [hinstall] at hchanged
    cases written with
    | none => exact absurd rfl hchanged
    | some text =>
      obtain ⟨rfl, -, ⟨-, hnone⟩ | ⟨raw, previous, hraw, hparse, -, hnext⟩⟩ := install_writes hinstall
      · rw [hexpected] at hnone
        cases hnone
      · refine ⟨raw, previous, hraw, hparse, ?_⟩
        obtain hsame | ⟨hmatches, -⟩ := hnext
        · -- the proposed document is there already: the text that is written is the one in place
          refine absurd ?_ hchanged
          have hfile := hsound.file
          rw [hraw] at hfile
          obtain ⟨last, hlast, rfl⟩ := Option.map_eq_some_iff.mp hfile.symm
          obtain ⟨hmem, -⟩ := hsound.documents last (List.mem_of_getLast? hlast)
          have hvalid := hproper.valid_of_mem hmem
          obtain rfl := parse_render hvalid hparse
          rw [fingerprint_sortKeys hvalid] at hsame
          obtain ⟨c', hc', rfl⟩ := List.mem_map.mp hmem
          have htext := hproper.digests c' hc' c hc hsame
          have hsorted : sortKeys c'.proposed = sortKeys c.proposed :=
            compact_inj (sortKeys_valid hvalid) (sortKeys_valid (hproper.valid c hc)) htext
          change some (render c.proposed) = s.file
          rw [hraw, render, render, hsorted]
        · exact (hmatches expected hexpected).symm

/-! ## A rotation -/

def sampleEntry (publicKey status : String) : Json :=
  .obj [("public_key", .str publicKey), ("purpose", .str "context_assertion"), ("deployment_id", .str "d"),
    ("organization_id", .str "o"), ("allowed_audiences", .arr [.str "tandem-runtime"]), ("status", .str status)]

def firstDocument : Json := .obj [("k", sampleEntry "11qYAYKxCrfVS_7TyWQHOg7hcvPapiMlrwIaaPcHURo" "active")]

/-- The first key is revoked and another one is there. -/
def secondDocument : Json :=
  .obj [("k", sampleEntry "11qYAYKxCrfVS_7TyWQHOg7hcvPapiMlrwIaaPcHURo" "revoked"),
    ("n", sampleEntry "PUAXw-hDiVqStwqnTRt-vJyYLM8uxJaMwM1V8Sr0Zgw" "active")]

/-- The digests of the two documents; no other digest is one of these. -/
def sampleDigest (text : List Char) : String :=
  if text = canonicalText firstDocument then "1eba625b23bb6141ae06d959853e9d0b40e7199c5f0353985138b063e4b64c2e"
  else if text = canonicalText secondDocument then "2a0a56cd31ac1635dca1c58a21037324418e2e240d0d48491f2c140ed88b81d3"
  else "~" ++ String.ofList text

def sampleStat (kind : FileKind) (mode : Nat) : Stat := ⟨kind, 1000, mode, 1, 0⟩

def sampleHost : Host where
  posix := true
  euid := 0
  now := 1700000000000
  directory := some (sampleStat .directory 0o700)
  lock := some (sampleStat .regular 0o600)
  keyring := sampleStat .regular 0o600
  initialized := false

def sampleCall (document : Json) (expected : Option String) : Call :=
  ⟨⟨1000, "d", "o"⟩, sampleHost, document, expected, true, true, .syncs⟩

def sampleCalls : List Call :=
  [sampleCall firstDocument none,
    sampleCall secondDocument (some "1eba625b23bb6141ae06d959853e9d0b40e7199c5f0353985138b063e4b64c2e")]

theorem sampleEntry_valid (publicKey status : String) : Valid ⟨id, id⟩ (sampleEntry publicKey status) := by
  refine .obj (by simp) fun f hf => ?_
  simp only [List.mem_cons, List.not_mem_nil, or_false] at hf
  obtain rfl | rfl | rfl | rfl | rfl | rfl := hf
  · exact .str _
  · exact .str _
  · exact .str _
  · exact .str _
  · refine .arr fun v hv => ?_
    rw [List.mem_singleton.mp hv]
    exact .str _
  · exact .str _

theorem sampleCalls_proper : Proper ⟨id, id⟩ sampleDigest sampleCalls := by
  have hdocument : ∀ c ∈ sampleCalls, c.proposed = firstDocument ∨ c.proposed = secondDocument := by
    intro c hc
    simp only [sampleCalls, List.mem_cons, List.not_mem_nil, or_false] at hc
    obtain rfl | rfl := hc
    · exact .inl rfl
    · exact .inr rfl
  have hdigests : fingerprint sampleDigest firstDocument = fingerprint sampleDigest secondDocument →
      canonicalText firstDocument = canonicalText secondDocument := by
    intro h
    by_contra hne
    rw [fingerprint, fingerprint, sampleDigest, if_pos rfl, sampleDigest, if_neg fun heq => hne heq.symm,
      if_pos rfl] at h
    exact absurd h (by decide)
  refine ⟨fun c hc => ?_, fun c hc c' hc' h => ?_⟩
  · obtain hfirst | hsecond := hdocument c hc
    · rw [hfirst]
      refine .obj (by decide) fun f hf => ?_
      rw [List.mem_singleton.mp hf]
      exact sampleEntry_valid _ _
    · rw [hsecond]
      refine .obj (by decide) fun f hf => ?_
      simp only [List.mem_cons, List.not_mem_nil, or_false] at hf
      obtain rfl | rfl := hf <;> exact sampleEntry_valid _ _
  · obtain hfirst | hsecond := hdocument c hc <;> obtain hfirst' | hsecond' := hdocument c' hc'
    · rw [hfirst, hfirst']
    · rw [hfirst, hsecond'] at h ⊢
      exact hdigests h
    · rw [hsecond, hfirst'] at h ⊢
      exact (hdigests h.symm).symm
    · rw [hsecond, hsecond']

/-- Both documents are installed, and the second keeps the key of the first. -/
theorem sampleCalls_monotone :
    (run ⟨id, id⟩ sampleDigest sampleCalls).installed.length = 2 ∧
    (run ⟨id, id⟩ sampleDigest sampleCalls).installed.Pairwise Succeeds :=
  ⟨by decide +kernel, (history_monotone ⟨id, id⟩ sampleDigest sampleCalls sampleCalls_proper).1⟩

end KeyringHistory
