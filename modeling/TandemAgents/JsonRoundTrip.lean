import Mathlib.Data.List.TakeWhile
import TandemAgents.JsonHooks

/-!
# What is written as JSON reads back

Every value `dumps` writes is the value `loads` reads, with any hook that takes new keys,
whatever may follow it that is not part of a number.
-/
namespace JsonRoundTrip

open ByteFields JsonData JsonText JsonHooks

set_option maxRecDepth 20000

/-! ## Strings -/

theorem char_range (c : Char) : c.toNat < 0xd800 ∨ 0xdfff < c.toNat ∧ c.toNat < 0x110000 := c.valid

theorem codeUnits_lt {c : Char} {unit : Nat} (h : unit ∈ codeUnits c) : unit < 65536 := by
  have hc := char_range c
  unfold codeUnits at h
  split at h
  · rw [List.mem_singleton] at h
    omega
  · rw [List.mem_cons, List.mem_singleton] at h
    omega

/-- The escapes of a character hold its code units. -/
theorem joinUnits_codeUnits (c : Char) (units : List Nat) : joinUnits (codeUnits c ++ units) = c :: joinUnits units := by
  have hc := char_range c
  unfold codeUnits
  split
  · rename_i hsmall
    have hhigh : isHigh c.toNat = false := by simp only [isHigh, Bool.and_eq_false_iff, decide_eq_false_iff_not]; omega
    have hlow : isLow c.toNat = false := by simp only [isLow, Bool.and_eq_false_iff, decide_eq_false_iff_not]; omega
    have hunit : unitChar c.toNat = c := by simp [unitChar, hhigh, hlow]
    cases units with
    | nil => simp [joinUnits, hunit]
    | cons unit units => simp [joinUnits, hhigh, hunit]
  · rename_i hlarge
    have hhigh : isHigh (0xd800 + (c.toNat - 0x10000) / 1024) = true := by
      simp only [isHigh, Bool.and_eq_true, decide_eq_true_eq]; omega
    have hlow : isLow (0xdc00 + (c.toNat - 0x10000) % 1024) = true := by
      simp only [isLow, Bool.and_eq_true, decide_eq_true_eq]; omega
    have hjoin : 0x10000 + (0xd800 + (c.toNat - 0x10000) / 1024 - 0xd800) * 1024 +
        (0xdc00 + (c.toNat - 0x10000) % 1024 - 0xdc00) = c.toNat := by omega
    simp only [List.cons_append, List.nil_append, joinUnits, hhigh, hlow, Bool.and_self, if_true, hjoin,
      Char.ofNat_toNat]

theorem joinUnits_flatMap (s : List Char) : joinUnits (s.flatMap codeUnits) = s := by
  induction s with
  | nil => rfl
  | cons c s ih => rw [List.flatMap_cons, joinUnits_codeUnits, ih]

theorem scanString_cons {mode mode' : Mode} {c : Char} {units : List Nat} (h : mode.step c = .next mode' units)
    (cs : List Char) : scanString mode (c :: cs) = (scanString mode' cs).map (fun r => (units ++ r.1, r.2)) := by
  rw [scanString, h]

theorem step_digit {c : Char} {digit : Nat} (h : hexValue c = some digit) (missing value : Nat) :
    (Mode.unicode (missing + 1) value).step c = .next (.unicode missing (16 * value + digit)) [] := by
  simp [Mode.step, h]

theorem step_last_digit {c : Char} {digit : Nat} (h : hexValue c = some digit) (value : Nat) :
    (Mode.unicode 0 value).step c = .next .plain [16 * value + digit] := by
  simp [Mode.step, h]

theorem scanString_unicodeEscape {unit : Nat} (h : unit < 65536) (cs : List Char) :
    scanString .plain (unicodeEscape unit ++ cs) = (scanString .plain cs).map (fun r => (unit :: r.1, r.2)) := by
  have h₁ := (hexDigit_read (unit / 4096 % 16) (by omega)).1
  have h₂ := (hexDigit_read (unit / 256 % 16) (by omega)).1
  have h₃ := (hexDigit_read (unit / 16 % 16) (by omega)).1
  have h₄ := (hexDigit_read (unit % 16) (by omega)).1
  have hsum : 16 * (16 * (16 * (16 * 0 + unit / 4096 % 16) + unit / 256 % 16) + unit / 16 % 16) + unit % 16 = unit := by
    omega
  simp only [unicodeEscape, List.cons_append, List.nil_append]
  rw [scanString_cons rfl, scanString_cons rfl,
    scanString_cons (step_digit h₁ 2 0), scanString_cons (step_digit h₂ 1 _), scanString_cons (step_digit h₃ 0 _),
    scanString_cons (step_last_digit h₄ _), hsum]
  cases scanString .plain cs <;> rfl

theorem scanString_short {c d : Char} {unit : Nat} (hd : d ≠ 'u') (h : escaped d = some unit) (hc : codeUnits c = [unit])
    (cs : List Char) :
    scanString .plain ('\\' :: d :: cs) = (scanString .plain cs).map (fun r => (codeUnits c ++ r.1, r.2)) := by
  rw [scanString_cons rfl,
    scanString_cons (by rw [Mode.step, if_neg hd, h]), hc]
  cases scanString .plain cs <;> rfl

theorem scanString_escapeChar (c : Char) (cs : List Char) :
    scanString .plain (escapeChar c ++ cs) = (scanString .plain cs).map (fun r => (codeUnits c ++ r.1, r.2)) := by
  unfold escapeChar
  split
  · rename_i h; subst h; exact scanString_short (by decide) rfl rfl cs
  split
  · rename_i h; subst h; exact scanString_short (by decide) rfl rfl cs
  split
  · rename_i h; subst h; exact scanString_short (by decide) rfl rfl cs
  split
  · rename_i h; subst h; exact scanString_short (by decide) rfl rfl cs
  split
  · rename_i h; subst h; exact scanString_short (by decide) rfl rfl cs
  split
  · rename_i h; subst h; exact scanString_short (by decide) rfl rfl cs
  split
  · rename_i h; subst h; exact scanString_short (by decide) rfl rfl cs
  split
  · rename_i hquote hslash _ _ _ _ _ hplain
    have hunits : codeUnits c = [c.toNat] := by rw [codeUnits, if_pos (by omega)]
    rw [hunits]
    exact scanString_cons (by rw [Mode.step, if_neg hquote, if_neg hslash, if_neg (by omega)]) cs
  · have hlt : ∀ unit ∈ codeUnits c, unit < 65536 := fun unit h => codeUnits_lt h
    generalize codeUnits c = units at hlt
    induction units with
    | nil => simp
    | cons unit units ih =>
      rw [List.flatMap_cons, List.append_assoc, scanString_unicodeEscape (hlt unit List.mem_cons_self),
        ih fun u hu => hlt u (List.mem_cons_of_mem unit hu)]
      cases scanString .plain cs <;> rfl

theorem scanString_closed (s cs : List Char) :
    scanString .plain (s.flatMap escapeChar ++ '"' :: cs) = some (s.flatMap codeUnits, cs) := by
  induction s with
  | nil => rfl
  | cons c s ih => rw [List.flatMap_cons, List.append_assoc, scanString_escapeChar, ih]; rfl

/-- A string is read to its closing quote and is the one that was written. -/
theorem readString_encodeString (s : String) (cs : List Char) :
    ∃ body, encodeString s ++ cs = '"' :: body ∧ readString body = some (s, cs) := by
  refine ⟨s.toList.flatMap escapeChar ++ '"' :: cs, by simp [encodeString], ?_⟩
  rw [readString, scanString_closed, Option.map_some, joinUnits_flatMap, String.ofList_toList]

/-! ## Numbers and literals -/

theorem head_toDigits {n : Nat} (h : 0 < n) : (Nat.toDigits 10 n).head? ≠ some '0' := by
  induction n using Nat.strongRecOn with
  | ind n ih =>
    by_cases hn : n < 10
    · rw [Nat.toDigits_of_lt_base hn]
      have hdigit : ∀ m, m < 10 → 0 < m → [Nat.digitChar m].head? ≠ some '0' := by decide
      exact hdigit n hn h
    · rw [Nat.toDigits_of_base_le (by decide) (by omega), List.head?_append_of_ne_nil _ Nat.toDigits_ne_nil]
      exact ih (n / 10) (by omega) (by omega)

theorem readNat_toDigits (n : Nat) : readNat (Nat.toDigits 10 n) = some n := by
  have hdigits : isDigits (Nat.toDigits 10 n) = true := by
    simp only [isDigits, Bool.and_eq_true, Bool.not_eq_true', List.isEmpty_eq_false_iff, List.all_eq_true]
    exact ⟨Nat.toDigits_ne_nil, fun c hc => Nat.isDigit_of_mem_toDigits (by decide) (by decide) hc⟩
  have hzero : (Nat.toDigits 10 n).head? = some '0' → (Nat.toDigits 10 n).length = 1 := by
    intro hhead
    cases n with
    | zero => rfl
    | succ n => exact absurd hhead (head_toDigits (Nat.succ_pos n))
  rw [readNat, if_pos ⟨hdigits, hzero⟩, Nat.ofDigitChars_ten_toDigits]

theorem toList_toString_nat (n : Nat) : (toString n).toList = Nat.toDigits 10 n := Nat.toList_repr

/-- The text of an integer is its digits, perhaps behind a sign. -/
theorem toList_toString_int (n : Int) :
    (toString n).toList = Nat.toDigits 10 n.natAbs ∧ 0 ≤ n ∨ (toString n).toList = '-' :: Nat.toDigits 10 n.natAbs ∧ n < 0 := by
  cases n with
  | ofNat n => exact .inl ⟨toList_toString_nat n, Int.natCast_nonneg n⟩
  | negSucc n =>
    refine .inr ⟨?_, Int.negSucc_lt_zero n⟩
    have htext : toString (Int.negSucc n) = "-" ++ toString (n + 1) := rfl
    rw [htext, String.toList_append, toList_toString_nat]
    rfl

theorem digit_ne_dash {c : Char} (h : c.isDigit = true) : c ≠ '-' := by
  rintro rfl
  exact absurd h (by decide)

theorem readInt_toString (n : Int) : readInt (toString n).toList = some n := by
  obtain ⟨htext, hn⟩ | ⟨htext, hn⟩ := toList_toString_int n
  · have hhead : (Nat.toDigits 10 n.natAbs).head? ≠ some '-' := by
      intro hhead
      have hmem := List.mem_of_head? hhead
      exact digit_ne_dash (Nat.isDigit_of_mem_toDigits (by decide) (by decide) hmem) rfl
    rw [htext, readInt, if_neg hhead, readNat_toDigits, Option.map_some, Int.ofNat_eq_natCast]
    congr 1
    omega
  · rw [htext, readInt, List.head?_cons, if_pos rfl, List.tail_cons, readNat_toDigits, Option.map_some]
    congr 1
    omega

theorem atomChar_digit {c : Char} (h : c.isDigit = true) : atomChar c = true := by simp [atomChar, h]

theorem atomChar_int (n : Int) : ∀ c ∈ (toString n).toList, atomChar c = true := by
  have hdigits : ∀ c ∈ Nat.toDigits 10 n.natAbs, atomChar c = true := fun c hc =>
    atomChar_digit (Nat.isDigit_of_mem_toDigits (by decide) (by decide) hc)
  obtain ⟨htext, -⟩ | ⟨htext, -⟩ := toList_toString_int n
  · rw [htext]
    exact hdigits
  · rw [htext]
    intro c hc
    cases hc with
    | head => decide
    | tail _ hc => exact hdigits c hc

variable {floats : Floats} {put : Dict → String → Json → Option Dict}

theorem readAtom_int (n : Int) : readAtom floats (toString n).toList = some (.int n) := by
  have hread := readInt_toString n
  have hne : ∀ s, readInt s = none → (toString n).toList ≠ s := by
    rintro s hs rfl
    rw [hs] at hread
    exact absurd hread (by simp)
  rw [readAtom, if_neg (hne _ (by decide)), if_neg (hne _ (by decide)), if_neg (hne _ (by decide)),
    if_neg (hne _ (by decide)), if_neg (hne _ (by decide)), if_neg (hne _ (by decide)), hread]

/-- No number or literal goes on. -/
def Ends (cs : List Char) : Prop := ∀ c, cs.head? = some c → atomChar c = false

theorem takeWhile_ends {s cs : List Char} (hs : ∀ c ∈ s, atomChar c = true) (hcs : Ends cs) :
    (s ++ cs).takeWhile atomChar = s ∧ (s ++ cs).dropWhile atomChar = cs := by
  rw [List.takeWhile_append_of_pos hs, List.dropWhile_append_of_pos hs]
  cases cs with
  | nil => simp
  | cons c cs => simp [hcs c rfl]

theorem value_atom {s : List Char} {v : Json} (hs : ∀ c ∈ s, atomChar c = true) (hread : readAtom floats s = some v)
    (fuel : Nat) {cs : List Char} (hcs : Ends cs) : valueBy floats put (fuel + 1) (s ++ cs) = some (v, cs) := by
  obtain ⟨htake, hdrop⟩ := takeWhile_ends hs hcs
  cases s with
  | nil => exact absurd hread (by simp [readAtom, readInt, readNat, isDigits, isFloat])
  | cons c s =>
    have hc := hs c List.mem_cons_self
    have hne : ∀ d, atomChar d = false → c ≠ d := by
      rintro d hd rfl
      exact absurd hc (by simp [hd])
    rw [List.cons_append] at htake hdrop ⊢
    rw [valueBy, if_neg (hne _ (by decide)), if_neg (hne _ (by decide)), if_neg (hne _ (by decide)), htake, hdrop, hread]
    rfl

/-! ## Values -/

theorem skipBlanks_cons {c : Char} (h : isBlank c = false) (cs : List Char) : skipBlanks (c :: cs) = c :: cs := by
  simp [skipBlanks, h]

/-- The text of a value starts with no blank and closes no list. -/
theorem dumps_head {v : Json} (hv : Valid floats v) :
    ∃ c cs, dumps v = c :: cs ∧ isBlank c = false ∧ c ≠ ']' := by
  have hatom : ∀ c, atomChar c = true → isBlank c = false ∧ c ≠ ']' := by
    intro c hc
    have hne : ∀ d, atomChar d = false → c ≠ d := by
      rintro d hd rfl
      exact absurd hc (by simp [hd])
    simp [isBlank, hne ' ' (by decide), hne '\t' (by decide), hne '\n' (by decide), hne '\r' (by decide),
      hne ']' (by decide)]
  have hspell : ∀ s : List Char, s ≠ [] → (∀ c ∈ s, atomChar c = true) → ∃ c cs, s = c :: cs ∧ isBlank c = false ∧ c ≠ ']' := by
    intro s hne hs
    cases s with
    | nil => exact absurd rfl hne
    | cons c cs => exact ⟨c, cs, rfl, hatom c (hs c List.mem_cons_self)⟩
  cases hv with
  | null => exact ⟨_, _, rfl, by decide, by decide⟩
  | bool b => cases b <;> exact ⟨_, _, rfl, by decide, by decide⟩
  | int n =>
    have hne : (toString n).toList ≠ [] := by
      intro hnil
      have hread := readInt_toString n
      rw [hnil] at hread
      cases hread
    rw [dumps]
    exact hspell _ hne (atomChar_int n)
  | float hchars hread =>
    rw [dumps]
    refine hspell _ ?_ hchars
    intro hnil
    rw [hnil] at hread
    exact absurd hread (by simp [readAtom, readInt, readNat, isDigits, isFloat])
  | str s => exact ⟨_, _, rfl, by decide, by decide⟩
  | @arr items h => cases items <;> exact ⟨_, _, by rw [dumps], by decide, by decide⟩
  | @obj fields hkeys h =>
    cases fields with
    | nil => exact ⟨_, _, by rw [dumps], by decide, by decide⟩
    | cons f fields => exact ⟨_, _, by rw [dumps], by decide, by decide⟩

theorem skipBlanks_dumps {v : Json} (hv : Valid floats v) (cs : List Char) :
    skipBlanks (dumps v ++ cs) = dumps v ++ cs := by
  obtain ⟨c, rest, htext, hblank, -⟩ := dumps_head hv
  rw [htext, List.cons_append, skipBlanks_cons hblank]

theorem skipBlanks_space {v : Json} (hv : Valid floats v) (cs : List Char) :
    skipBlanks (' ' :: (dumps v ++ cs)) = dumps v ++ cs := by
  have hskip : skipBlanks (' ' :: (dumps v ++ cs)) = skipBlanks (dumps v ++ cs) := rfl
  rw [hskip, skipBlanks_dumps hv cs]

/-- The reader answers with the value, wherever it stands in a text. -/
def Reads (floats : Floats) (put : Dict → String → Json → Option Dict) (v : Json) : Prop :=
  ∀ fuel cs, (dumps v).length ≤ fuel → Ends cs → valueBy floats put fuel (dumps v ++ cs) = some (v, cs)

theorem ends_cons {c : Char} (h : atomChar c = false) (cs : List Char) : Ends (c :: cs) := by
  rintro d hd
  rw [List.head?_cons, Option.some.injEq] at hd
  rw [← hd, h]

theorem ends_items (items : List Json) (cs : List Char) : Ends (dumpsItems items ++ ']' :: cs) := by
  cases items with
  | nil => exact ends_cons (by decide) _
  | cons v items => exact ends_cons (by decide) _

theorem ends_fields (fields : Dict) (cs : List Char) : Ends (dumpsFields fields ++ '}' :: cs) := by
  cases fields with
  | nil => exact ends_cons (by decide) _
  | cons f fields => exact ends_cons (by decide) _

theorem elements_step {v : Json} {fuel : Nat} {cs : List Char} (h : valueBy floats put fuel (dumps v ++ cs) = some (v, cs)) :
    elementsBy floats put (fuel + 1) (dumps v ++ cs) =
      match expect ']' (skipBlanks cs) with
      | some rest => some ([v], rest)
      | none => (expect ',' (skipBlanks cs)).bind
          (fun cs => (elementsBy floats put fuel (skipBlanks cs)).map (fun r => (v :: r.1, r.2))) := by
  rw [elementsBy, h]
  rfl

theorem elements_dumps {items : List Json} (hitems : ∀ v ∈ items, Valid floats v ∧ Reads floats put v) {v : Json}
    (hv : Reads floats put v) (fuel : Nat) (cs : List Char) (hfuel : (dumps v ++ dumpsItems items).length < fuel) :
    elementsBy floats put fuel (dumps v ++ (dumpsItems items ++ ']' :: cs)) = some (v :: items, cs) := by
  induction items generalizing v fuel with
  | nil =>
    cases fuel with
    | zero => exact absurd hfuel (Nat.not_lt_zero _)
    | succ fuel =>
      rw [dumpsItems, List.append_nil] at hfuel
      rw [elements_step (hv fuel _ (by omega) (ends_items [] cs))]
      rfl
  | cons w items ih =>
    obtain ⟨hvalid, hw⟩ := hitems w List.mem_cons_self
    cases fuel with
    | zero => exact absurd hfuel (Nat.not_lt_zero _)
    | succ fuel =>
      simp only [dumpsItems, List.length_append, List.length_cons, List.length_nil] at hfuel
      have hrest := ih (fun u hu => hitems u (List.mem_cons_of_mem w hu)) hw fuel (by
        rw [List.length_append]
        omega)
      rw [elements_step (hv fuel _ (by omega) (ends_items (w :: items) cs))]
      simp only [dumpsItems, List.cons_append, List.nil_append, List.append_assoc]
      rw [skipBlanks_cons (by decide)]
      simp only [expect, Char.reduceEq, if_false, if_true, Option.bind_some]
      rw [skipBlanks_space hvalid, hrest]
      rfl

theorem members_step (hput : TakesNew put) {d : Dict} {k : String} {v : Json} {fuel : Nat} {cs : List Char}
    (hnew : k ∉ d.map Prod.fst) (hvalid : Valid floats v) (h : valueBy floats put fuel (dumps v ++ cs) = some (v, cs)) :
    membersBy floats put (fuel + 1) d (encodeString k ++ ':' :: ' ' :: (dumps v ++ cs)) =
      match expect '}' (skipBlanks cs) with
      | some rest => some (d ++ [(k, v)], rest)
      | none => (expect ',' (skipBlanks cs)).bind
          (fun cs => membersBy floats put fuel (d ++ [(k, v)]) (skipBlanks cs)) := by
  obtain ⟨body, htext, hread⟩ := readString_encodeString k (':' :: ' ' :: (dumps v ++ cs))
  rw [htext, membersBy]
  simp only [expect, if_true, Option.bind_eq_bind, Option.bind_some, hread]
  rw [skipBlanks_cons (by decide)]
  simp only [if_true, Option.bind_some]
  rw [skipBlanks_space hvalid, h, Option.bind_some, hput d k v hnew, Option.bind_some] <;> rfl

theorem members_dumps (hput : TakesNew put) {fields : Dict}
    (hfields : ∀ f ∈ fields, Valid floats f.2 ∧ Reads floats put f.2) {d : Dict} {k : String} {v : Json}
    (hkeys : ((d ++ (k, v) :: fields).map Prod.fst).Nodup) (hvalid : Valid floats v) (hv : Reads floats put v)
    (fuel : Nat) (cs : List Char)
    (hfuel : (encodeString k ++ [':', ' '] ++ dumps v ++ dumpsFields fields).length < fuel) :
    membersBy floats put fuel d (encodeString k ++ ':' :: ' ' :: (dumps v ++ (dumpsFields fields ++ '}' :: cs))) =
      some (d ++ (k, v) :: fields, cs) := by
  induction fields generalizing d k v fuel with
  | nil =>
    have hnew : k ∉ d.map Prod.fst := by
      rw [List.map_append, List.nodup_append] at hkeys
      exact fun hk => hkeys.2.2 k hk k (by simp) rfl
    cases fuel with
    | zero => exact absurd hfuel (Nat.not_lt_zero _)
    | succ fuel =>
      simp only [List.length_append] at hfuel
      rw [members_step hput hnew hvalid (hv fuel _ (by omega) (ends_fields [] cs))]
      rfl
  | cons f fields ih =>
    obtain ⟨j, w⟩ := f
    obtain ⟨hvalid', hw⟩ := hfields (j, w) List.mem_cons_self
    have hnew : k ∉ d.map Prod.fst := by
      rw [List.map_append, List.nodup_append] at hkeys
      exact fun hk => hkeys.2.2 k hk k (by simp) rfl
    have hkeys' : (((d ++ [(k, v)]) ++ (j, w) :: fields).map Prod.fst).Nodup := by
      rw [List.append_assoc]
      exact hkeys
    cases fuel with
    | zero => exact absurd hfuel (Nat.not_lt_zero _)
    | succ fuel =>
      simp only [dumpsFields, List.length_append, List.length_cons, List.length_nil] at hfuel
      have hrest := ih (fun g hg => hfields g (List.mem_cons_of_mem _ hg)) hkeys' hvalid' hw fuel (by
        simp only [List.length_append, List.length_cons, List.length_nil]
        omega)
      rw [members_step hput hnew hvalid (hv fuel _ (by omega) (ends_fields ((j, w) :: fields) cs))]
      simp only [dumpsFields, List.cons_append, List.nil_append, List.append_assoc]
      rw [skipBlanks_cons (by decide)]
      simp only [expect, Char.reduceEq, if_false, if_true, Option.bind_some]
      have hquote : skipBlanks (' ' :: (encodeString j ++ ':' :: ' ' :: (dumps w ++ (dumpsFields fields ++ '}' :: cs)))) =
          encodeString j ++ ':' :: ' ' :: (dumps w ++ (dumpsFields fields ++ '}' :: cs)) := rfl
      rw [hquote, hrest, List.append_assoc]
      rfl

/-- What is written is read, to its end and no further. -/
theorem valueBy_dumps (hput : TakesNew put) {v : Json} (hv : Valid floats v) : Reads floats put v := by
  induction hv with
  | null =>
    intro fuel cs hfuel hcs
    cases fuel with
    | zero => exact absurd hfuel (by decide)
    | succ fuel => exact value_atom (List.all_eq_true.mp (by decide)) rfl fuel hcs
  | bool b =>
    intro fuel cs hfuel hcs
    cases fuel with
    | zero => cases b <;> exact absurd hfuel (by decide)
    | succ fuel => cases b <;> exact value_atom (List.all_eq_true.mp (by decide)) rfl fuel hcs
  | int n =>
    intro fuel cs hfuel hcs
    obtain ⟨c, rest, htext, -, -⟩ := dumps_head (Valid.int n : Valid floats (.int n))
    rw [htext] at hfuel
    cases fuel with
    | zero => exact absurd hfuel (by simp)
    | succ fuel =>
      rw [dumps]
      exact value_atom (atomChar_int n) (readAtom_int n) fuel hcs
  | float hchars hread =>
    intro fuel cs hfuel hcs
    obtain ⟨c, rest, htext, -, -⟩ := dumps_head (Valid.float hchars hread)
    rw [htext] at hfuel
    cases fuel with
    | zero => exact absurd hfuel (by simp)
    | succ fuel =>
      rw [dumps]
      exact value_atom hchars hread fuel hcs
  | str s =>
    intro fuel cs hfuel hcs
    rw [dumps] at hfuel ⊢
    obtain ⟨body, htext, hread⟩ := readString_encodeString s cs
    cases fuel with
    | zero => exact absurd hfuel (by simp [encodeString])
    | succ fuel =>
      rw [htext, valueBy, if_pos rfl, hread]
      rfl
  | @arr items hitems ih =>
    intro fuel cs hfuel hcs
    cases fuel with
    | zero => cases items <;> exact absurd hfuel (by simp [dumps])
    | succ fuel =>
      cases items with
      | nil => rfl
      | cons v items =>
        have hvalid := hitems v List.mem_cons_self
        obtain ⟨c, rest, htext, -, hne⟩ := dumps_head hvalid
        have hexpect : ∀ cs, expect ']' (dumps v ++ cs) = none := by
          intro cs
          rw [htext, List.cons_append, expect, if_neg hne]
        simp only [dumps, List.length_cons, List.length_append, List.length_nil] at hfuel
        have hread := elements_dumps (fun w hw => ⟨hitems w (List.mem_cons_of_mem v hw), ih w (List.mem_cons_of_mem v hw)⟩)
          (ih v List.mem_cons_self) fuel cs (by
            rw [List.length_append]
            omega)
        simp only [dumps, List.cons_append, List.append_assoc, List.nil_append]
        rw [valueBy, if_neg (by decide), if_neg (by decide), if_pos rfl, skipBlanks_dumps hvalid, hexpect, hread]
        rfl
  | @obj fields hkeys hfields ih =>
    intro fuel cs hfuel hcs
    cases fuel with
    | zero =>
      cases fields with
      | nil => exact absurd hfuel (by simp [dumps])
      | cons f fields => exact absurd hfuel (by simp [dumps])
    | succ fuel =>
      cases fields with
      | nil => rfl
      | cons f fields =>
        obtain ⟨k, v⟩ := f
        simp only [dumps, List.length_cons, List.length_append, List.length_nil] at hfuel
        have hread := members_dumps hput (d := [])
          (fun f hf => ⟨hfields f (List.mem_cons_of_mem _ hf), ih f (List.mem_cons_of_mem _ hf)⟩) hkeys
          (hfields (k, v) List.mem_cons_self) (ih (k, v) List.mem_cons_self) fuel cs (by
            simp only [List.length_append, List.length_cons, List.length_nil]
            omega)
        simp only [dumps, List.cons_append, List.append_assoc, List.nil_append]
        have hquote : ∀ cs, skipBlanks (encodeString k ++ cs) = encodeString k ++ cs := fun cs => rfl
        have hexpect : ∀ cs, expect '}' (encodeString k ++ cs) = none := fun cs => rfl
        rw [valueBy, if_neg (by decide), if_pos rfl, hquote, hexpect, hread]
        rfl

/-- `json.loads(json.dumps(value)) == value`, also with blanks behind the text. -/
theorem loadsBy_dumps_blanks (hput : TakesNew put) {v : Json} (hv : Valid floats v) {blanks : List Char}
    (hblanks : ∀ c ∈ blanks, isBlank c = true) : loadsBy floats put (dumps v ++ blanks) = some v := by
  have hends : Ends blanks := by
    intro c hc
    have hblank := hblanks c (List.mem_of_head? hc)
    simp only [isBlank, Bool.or_eq_true, decide_eq_true_eq] at hblank
    obtain ((rfl | rfl) | rfl) | rfl := hblank <;> decide
  have hread := valueBy_dumps hput hv ((dumps v ++ blanks).length + 1) blanks (by
    rw [List.length_append]
    omega) hends
  have hskip : skipBlanks blanks = [] := by
    rw [skipBlanks, List.dropWhile_eq_nil_iff]
    exact hblanks
  rw [loadsBy, skipBlanks_dumps hv, hread]
  exact if_pos hskip

theorem loadsBy_dumps (hput : TakesNew put) {v : Json} (hv : Valid floats v) : loadsBy floats put (dumps v) = some v := by
  have h := loadsBy_dumps_blanks hput hv (by simp : ∀ c ∈ ([] : List Char), isBlank c = true)
  rw [List.append_nil] at h
  exact h

/-! ## Without a hook -/

theorem value_dumps {v : Json} (hv : Valid floats v) (fuel : Nat) (cs : List Char) (hfuel : (dumps v).length ≤ fuel)
    (hcs : Ends cs) : value floats fuel (dumps v ++ cs) = some (v, cs) := by
  rw [← (valueBy_replace floats fuel).1]
  exact valueBy_dumps replace_takesNew hv fuel cs hfuel hcs

theorem loads_dumps_blanks {v : Json} (hv : Valid floats v) {blanks : List Char} (hblanks : ∀ c ∈ blanks, isBlank c = true) :
    loads floats (dumps v ++ blanks) = some v := by
  rw [← loadsBy_replace]
  exact loadsBy_dumps_blanks replace_takesNew hv hblanks

theorem loads_dumps {v : Json} (hv : Valid floats v) : loads floats (dumps v) = some v := by
  rw [← loadsBy_replace]
  exact loadsBy_dumps replace_takesNew hv

end JsonRoundTrip
