import Mathlib.Data.List.Sort
import TandemAgents.JsonRoundTrip

/-!
# JSON in one spelling

`json.dumps` with sorted keys, and with separators without blanks. Two values have the same
spelling exactly if they differ in the order of their fields at most.
-/
namespace JsonCanonical

open ByteFields JsonData JsonText JsonHooks JsonRoundTrip

set_option maxRecDepth 20000

/-! ## Sorted keys -/

/-- A dictionary with its keys in order. -/
def sortFields (d : Dict) : Dict := d.insertionSort (fun f g => f.1 ≤ g.1)

mutual

/-- What `sort_keys=True` makes of a value. -/
def sortKeys : Json → Json
  | .null => .null
  | .bool b => .bool b
  | .int n => .int n
  | .float text => .float text
  | .str s => .str s
  | .arr items => .arr (sortItems items)
  | .obj fields => .obj (sortFields (sortValues fields))

def sortItems : List Json → List Json
  | [] => []
  | v :: items => sortKeys v :: sortItems items

def sortValues : List (String × Json) → List (String × Json)
  | [] => []
  | (k, v) :: fields => (k, sortKeys v) :: sortValues fields

end

theorem sortItems_eq (items : List Json) : sortItems items = items.map sortKeys := by
  induction items with
  | nil => rfl
  | cons v items ih => rw [sortItems, ih, List.map_cons]

theorem sortValues_eq (fields : Dict) : sortValues fields = fields.map (fun f => (f.1, sortKeys f.2)) := by
  induction fields with
  | nil => rfl
  | cons f fields ih => rw [sortValues, ih, List.map_cons]

theorem mem_sortFields {d : Dict} {f : String × Json} : f ∈ sortFields d ↔ f ∈ d := List.mem_insertionSort _

theorem keys_sortFields (d : Dict) : ((sortFields (sortValues d)).map Prod.fst).Perm (d.map Prod.fst) := by
  refine ((List.perm_insertionSort _ _).map Prod.fst).trans ?_
  rw [sortValues_eq, List.map_map]
  exact .refl _

variable {floats : Floats}

theorem sortKeys_valid {v : Json} (h : Valid floats v) : Valid floats (sortKeys v) := by
  induction h with
  | null => exact .null
  | bool b => exact .bool b
  | int n => exact .int n
  | str s => exact .str s
  | float hchars hread => exact .float hchars hread
  | arr _ ih =>
    rw [sortKeys, sortItems_eq]
    refine .arr fun v hv => ?_
    obtain ⟨w, hw, rfl⟩ := List.mem_map.mp hv
    exact ih w hw
  | obj hkeys _ ih =>
    rw [sortKeys]
    refine .obj ((keys_sortFields _).nodup_iff.mpr hkeys) fun f hf => ?_
    rw [mem_sortFields, sortValues_eq] at hf
    obtain ⟨g, hg, rfl⟩ := List.mem_map.mp hf
    exact ih g hg

/-- A field of a dictionary no key of which comes twice. -/
theorem Dict.get_of_mem {d : Dict} (hkeys : (d.map Prod.fst).Nodup) {key : String} {v : Json} (h : (key, v) ∈ d) :
    d.get key = v := by
  induction d with
  | nil => cases h
  | cons f d ih =>
    obtain ⟨k, w⟩ := f
    rw [List.map_cons, List.nodup_cons] at hkeys
    rw [Dict.get_cons]
    obtain heq | hmem := List.mem_cons.mp h
    · cases heq
      exact if_pos rfl
    · rw [if_neg, ih hkeys.2 hmem]
      rintro rfl
      exact hkeys.1 (List.mem_map.mpr ⟨_, hmem, rfl⟩)

theorem Dict.mem_of_contains {d : Dict} {key : String} (h : d.contains key = true) : (key, d.get key) ∈ d := by
  induction d with
  | nil => cases h
  | cons f d ih =>
    obtain ⟨k, w⟩ := f
    rw [Dict.get_cons]
    by_cases hk : k = key
    · rw [if_pos hk, hk]
      exact List.mem_cons_self
    · rw [if_neg hk]
      refine List.mem_cons_of_mem _ (ih ?_)
      simpa [Dict.contains, hk] using h

theorem Dict.get_of_not_contains {d : Dict} {key : String} (h : d.contains key = false) : d.get key = .null := by
  induction d with
  | nil => rfl
  | cons f d ih =>
    obtain ⟨k, w⟩ := f
    simp only [Dict.contains, List.any_cons, Bool.or_eq_false_iff, decide_eq_false_iff_not] at h
    rw [Dict.get_cons, if_neg h.1, ih h.2]

/-- Sorting a dictionary sorts its values and moves none to another key. -/
theorem get_sortFields {d : Dict} (hkeys : (d.map Prod.fst).Nodup) (key : String) :
    (sortFields (sortValues d)).get key = sortKeys (d.get key) ∧
      (sortFields (sortValues d)).contains key = d.contains key := by
  have hperm := keys_sortFields d
  have hcontains : (sortFields (sortValues d)).contains key = d.contains key := by
    rw [Bool.eq_iff_iff, contains_iff, contains_iff]
    exact hperm.mem_iff
  refine ⟨?_, hcontains⟩
  cases hkey : d.contains key with
  | true =>
    refine Dict.get_of_mem (hperm.nodup_iff.mpr hkeys) ?_
    rw [mem_sortFields, sortValues_eq]
    exact List.mem_map_of_mem (f := fun f : String × Json => (f.1, sortKeys f.2)) (Dict.mem_of_contains hkey)
  | false =>
    rw [Dict.get_of_not_contains (hcontains.trans hkey), Dict.get_of_not_contains hkey]
    rfl

/-- A value that is sorted is not changed by sorting. -/
theorem sortKeys_sortKeys {v : Json} (h : Valid floats v) : sortKeys (sortKeys v) = sortKeys v := by
  induction h with
  | null | bool | int | float | str => rfl
  | arr _ ih =>
    simp only [sortKeys, sortItems_eq, List.map_map]
    congr 1
    exact List.map_congr_left fun w hw => ih w hw
  | @obj fields _ _ ih =>
    have hsame : sortValues (sortFields (sortValues fields)) = sortFields (sortValues fields) := by
      rw [sortValues_eq (sortFields _)]
      refine (List.map_congr_left fun f hf => ?_).trans (List.map_id _)
      rw [mem_sortFields, sortValues_eq] at hf
      obtain ⟨g, hg, rfl⟩ := List.mem_map.mp hf
      rw [ih g hg]
      rfl
    have hsorted := List.pairwise_insertionSort (fun f g : String × Json => f.1 ≤ g.1) (sortValues fields)
    simp only [sortKeys]
    rw [hsame]
    congr 1
    exact hsorted.insertionSort_eq

/-! ## Separators without blanks -/

mutual

/-- `json.dumps(value, separators=(",", ":"))`. -/
def compact : Json → List Char
  | .null => "null".toList
  | .bool true => "true".toList
  | .bool false => "false".toList
  | .int n => (toString n).toList
  | .float text => spellFloat text
  | .str s => encodeString s
  | .arr [] => ['[', ']']
  | .arr (v :: items) => '[' :: (compact v ++ compactItems items ++ [']'])
  | .obj [] => ['{', '}']
  | .obj ((k, v) :: fields) => '{' :: (encodeString k ++ [':'] ++ compact v ++ compactFields fields ++ ['}'])

def compactItems : List Json → List Char
  | [] => []
  | v :: items => [','] ++ compact v ++ compactItems items

def compactFields : List (String × Json) → List Char
  | [] => []
  | (k, v) :: fields => [','] ++ encodeString k ++ [':'] ++ compact v ++ compactFields fields

end

/-- Whether a text is read outside a string, in one or behind a backslash. -/
inductive Quote where
  | outside | inside | escape

/-- A blank behind every separator. -/
def spread : Quote → List Char → List Char
  | _, [] => []
  | .outside, c :: cs =>
    if c = '"' then c :: spread .inside cs
    else if c = ',' ∨ c = ':' then c :: ' ' :: spread .outside cs
    else c :: spread .outside cs
  | .inside, c :: cs =>
    if c = '"' then c :: spread .outside cs
    else if c = '\\' then c :: spread .escape cs
    else c :: spread .inside cs
  | .escape, c :: cs => c :: spread .inside cs

/-- The text of a value, spread, is its text with the default separators. -/
def Spreads (v : Json) : Prop := ∀ cs, spread .outside (compact v ++ cs) = dumps v ++ spread .outside cs

theorem spread_plain {cs : List Char} (h : ∀ c ∈ cs, c ≠ '"' ∧ c ≠ '\\') (rest : List Char) :
    spread .inside (cs ++ rest) = cs ++ spread .inside rest := by
  induction cs with
  | nil => rfl
  | cons c cs ih =>
    obtain ⟨hquote, hback⟩ := h c List.mem_cons_self
    rw [List.cons_append, spread, if_neg hquote, if_neg hback, ih fun d hd => h d (List.mem_cons_of_mem c hd)]
    rfl

theorem hexDigit_plain (n : Nat) (h : n < 16) : hexDigit n ≠ '"' ∧ hexDigit n ≠ '\\' := by
  have hall : ∀ n < 16, hexDigit n ≠ '"' ∧ hexDigit n ≠ '\\' := by decide
  exact hall n h

theorem spread_unicodeEscape (unit : Nat) (cs : List Char) :
    spread .inside (unicodeEscape unit ++ cs) = unicodeEscape unit ++ spread .inside cs := by
  have hdigits : ∀ c ∈ [hexDigit (unit / 4096 % 16), hexDigit (unit / 256 % 16), hexDigit (unit / 16 % 16),
      hexDigit (unit % 16)], c ≠ '"' ∧ c ≠ '\\' := by
    intro c hc
    simp only [List.mem_cons, List.not_mem_nil, or_false] at hc
    obtain rfl | rfl | rfl | rfl := hc <;> exact hexDigit_plain _ (Nat.mod_lt _ (by decide))
  have hplain := spread_plain hdigits cs
  change '\\' :: 'u' :: spread .inside (_ ++ cs) = '\\' :: 'u' :: (_ ++ spread .inside cs)
  rw [hplain]

theorem spread_escapeChar (c : Char) (cs : List Char) :
    spread .inside (escapeChar c ++ cs) = escapeChar c ++ spread .inside cs := by
  unfold escapeChar
  split
  · rfl
  · rename_i hquote
    split
    · rfl
    · rename_i hback
      iterate 5
        split
        · rfl
      split
      · exact spread_plain (by simp [hquote, hback]) cs
      · have hunits : ∀ units : List Nat, spread .inside (units.flatMap unicodeEscape ++ cs) =
            units.flatMap unicodeEscape ++ spread .inside cs := by
          intro units
          induction units with
          | nil => rfl
          | cons unit units ih =>
            rw [List.flatMap_cons, List.append_assoc, List.append_assoc, spread_unicodeEscape, ih]
        exact hunits (codeUnits c)

theorem spread_string (s : String) (cs : List Char) :
    spread .outside (encodeString s ++ cs) = encodeString s ++ spread .outside cs := by
  have hbody : ∀ l : List Char, spread .inside (l.flatMap escapeChar ++ '"' :: cs) =
      l.flatMap escapeChar ++ '"' :: spread .outside cs := by
    intro l
    induction l with
    | nil => rfl
    | cons c l ih => rw [List.flatMap_cons, List.append_assoc, List.append_assoc, spread_escapeChar, ih]
  rw [encodeString, List.cons_append, List.append_assoc, spread, if_pos rfl]
  simp only [List.cons_append, List.nil_append, hbody, List.append_assoc]

/-- Numbers and literals have no separators. -/
theorem spread_atom {s : List Char} (h : ∀ c ∈ s, atomChar c = true) (cs : List Char) :
    spread .outside (s ++ cs) = s ++ spread .outside cs := by
  induction s with
  | nil => rfl
  | cons c s ih =>
    have hc := h c List.mem_cons_self
    have hne : ∀ d, atomChar d = false → c ≠ d := by
      rintro d hd rfl
      exact absurd hc (by simp [hd])
    have hseparator : ¬ (c = ',' ∨ c = ':') := not_or.mpr ⟨hne _ (by decide), hne _ (by decide)⟩
    rw [List.cons_append, spread, if_neg (hne _ (by decide)), if_neg hseparator,
      ih fun d hd => h d (List.mem_cons_of_mem c hd)]
    rfl

theorem spread_other {c : Char} (h : c ≠ '"' ∧ c ≠ ',' ∧ c ≠ ':') (cs : List Char) :
    spread .outside (c :: cs) = c :: spread .outside cs := by
  rw [spread, if_neg h.1, if_neg (not_or.mpr h.2)]

theorem spread_items {items : List Json} (h : ∀ v ∈ items, Spreads v) (cs : List Char) :
    spread .outside (compactItems items ++ cs) = dumpsItems items ++ spread .outside cs := by
  induction items with
  | nil => rfl
  | cons v items ih =>
    have hrest := ih fun w hw => h w (List.mem_cons_of_mem v hw)
    rw [compactItems, dumpsItems]
    simp only [List.cons_append, List.nil_append, List.append_assoc]
    rw [spread, if_neg (by decide), if_pos (.inl rfl), h v List.mem_cons_self, hrest]

theorem spread_fields {fields : Dict} (h : ∀ f ∈ fields, Spreads f.2) (cs : List Char) :
    spread .outside (compactFields fields ++ cs) = dumpsFields fields ++ spread .outside cs := by
  induction fields with
  | nil => rfl
  | cons f fields ih =>
    obtain ⟨k, v⟩ := f
    have hrest := ih fun g hg => h g (List.mem_cons_of_mem _ hg)
    have hv : Spreads v := h (k, v) List.mem_cons_self
    rw [compactFields, dumpsFields]
    simp only [List.cons_append, List.nil_append, List.append_assoc]
    rw [spread, if_neg (by decide), if_pos (.inl rfl), spread_string, spread, if_neg (by decide), if_pos (.inr rfl), hv,
      hrest]

theorem spread_compact {v : Json} (h : Valid floats v) : Spreads v := by
  induction h with
  | null => exact spread_atom (List.all_eq_true.mp (by decide))
  | bool b => cases b <;> exact spread_atom (List.all_eq_true.mp (by decide))
  | int n => exact spread_atom (atomChar_int n)
  | float hchars _ => exact spread_atom hchars
  | str s => exact spread_string s
  | @arr items _ ih =>
    intro cs
    cases items with
    | nil => rfl
    | cons v items =>
      rw [compact, dumps]
      simp only [List.cons_append, List.nil_append, List.append_assoc]
      rw [spread_other (by decide), ih v List.mem_cons_self, spread_items fun w hw => ih w (List.mem_cons_of_mem v hw),
        spread_other (by decide)]
  | @obj fields _ _ ih =>
    intro cs
    cases fields with
    | nil => rfl
    | cons f fields =>
      obtain ⟨k, v⟩ := f
      have hv : Spreads v := ih (k, v) List.mem_cons_self
      rw [compact, dumps]
      simp only [List.cons_append, List.nil_append, List.append_assoc]
      rw [spread_other (by decide), spread_string, spread, if_neg (by decide), if_pos (.inr rfl), hv,
        spread_fields fun g hg => ih g (List.mem_cons_of_mem _ hg), spread_other (by decide)]

/-- Values of one compact text are the same. -/
theorem compact_inj {v w : Json} (hv : Valid floats v) (hw : Valid floats w) (h : compact v = compact w) : v = w := by
  have hspread := (spread_compact hv []).symm.trans ((congrArg (fun l => spread .outside (l ++ [])) h).trans
    (spread_compact hw []))
  rw [List.append_cancel_right_eq] at hspread
  have hread := loads_dumps hv
  rw [hspread, loads_dumps hw] at hread
  exact (Option.some.inj hread).symm

end JsonCanonical
