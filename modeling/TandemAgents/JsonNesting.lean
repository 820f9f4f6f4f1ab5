import TandemAgents.JsonRoundTrip

/-!
# What a cut text cannot be

A walk over a text that counts open brackets and knows whether it stands in a string. Every
text that `loads` accepts ends outside of strings with all brackets closed; an object that
was cut short ends elsewhere, also when a new record is written behind it.
-/
namespace JsonNesting

open JsonData JsonText JsonRoundTrip

set_option maxRecDepth 20000

inductive Place where
  | outside (depth : Nat)
  | inside (mode : Mode) (depth : Nat)

namespace Place

def depth : Place → Nat
  | outside depth => depth
  | inside _ depth => depth

/-- The same place under `n` more open brackets. -/
def shift (n : Nat) : Place → Place
  | outside depth => outside (depth + n)
  | inside mode depth => inside mode (depth + n)

/-- One character; nothing if it can stand in no JSON text there. -/
def step : Place → Char → Option Place
  | outside depth, c =>
    if c = '"' then some (inside .plain depth)
    else if c = '{' ∨ c = '[' then some (outside (depth + 1))
    else if c = '}' ∨ c = ']' then
      match depth with
      | 0 => none
      | depth + 1 => some (outside depth)
    else if atomChar c = true ∨ isBlank c = true ∨ c = ':' ∨ c = ',' then some (outside depth)
    else none
  | inside mode depth, c =>
    match mode.step c with
    | .fail => none
    | .close => some (outside depth)
    | .next mode _ => some (inside mode depth)

@[simp] theorem depth_shift (n : Nat) (p : Place) : (p.shift n).depth = p.depth + n := by
  cases p <;> rfl

theorem step_shift {p q : Place} {c : Char} (h : p.step c = some q) (n : Nat) :
    (p.shift n).step c = some (q.shift n) := by
  cases p with
  | outside depth =>
    simp only [step, shift] at h ⊢
    by_cases hquote : c = '"'
    · rw [if_pos hquote, Option.some.injEq] at h
      rw [if_pos hquote, ← h]
    by_cases hopen : c = '{' ∨ c = '['
    · rw [if_neg hquote, if_pos hopen, Option.some.injEq] at h
      rw [if_neg hquote, if_pos hopen, ← h, Nat.add_right_comm]
    by_cases hclose : c = '}' ∨ c = ']'
    · rw [if_neg hquote, if_neg hopen, if_pos hclose] at h
      rw [if_neg hquote, if_neg hopen, if_pos hclose]
      cases depth with
      | zero => cases h
      | succ depth =>
        cases h
        rw [Nat.add_right_comm]
    · rw [if_neg hquote, if_neg hopen, if_neg hclose] at h
      rw [if_neg hquote, if_neg hopen, if_neg hclose]
      split at h
      · rename_i hother
        rw [if_pos hother]
        cases h
        rfl
      · cases h
  | inside mode depth =>
    simp only [step, shift] at h ⊢
    cases hstep : mode.step c with
    | fail => simp [hstep] at h
    | close =>
      rw [hstep] at h
      cases h
      rfl
    | next mode' units =>
      rw [hstep] at h
      cases h
      rfl

end Place

def walk : Place → List Char → Option Place
  | p, [] => some p
  | p, c :: cs => (p.step c).bind (fun q => walk q cs)

theorem walk_append (p : Place) (a b : List Char) : walk p (a ++ b) = (walk p a).bind (fun q => walk q b) := by
  induction a generalizing p with
  | nil => rfl
  | cons c a ih =>
    rw [List.cons_append, walk, walk]
    cases p.step c with
    | none => rfl
    | some q => exact ih q

theorem walk_shift {p q : Place} {cs : List Char} (h : walk p cs = some q) (n : Nat) :
    walk (p.shift n) cs = some (q.shift n) := by
  induction cs generalizing p with
  | nil =>
    cases h
    rfl
  | cons c cs ih =>
    rw [walk] at h ⊢
    cases hstep : p.step c with
    | none => simp [hstep] at h
    | some r =>
      rw [hstep] at h
      rw [Place.step_shift hstep n]
      exact ih h

/-- What the walk passes over and is where it was. -/
def Balanced (s : List Char) : Prop := walk (.outside 0) s = some (.outside 0)

theorem Balanced.nil : Balanced [] := rfl

theorem Balanced.append {a b : List Char} (ha : Balanced a) (hb : Balanced b) : Balanced (a ++ b) := by
  rw [Balanced, walk_append, ha]
  exact hb

theorem Balanced.outside {s : List Char} (h : Balanced s) (depth : Nat) :
    walk (.outside depth) s = some (.outside depth) := by
  have hshift := walk_shift h depth
  rw [Place.shift, Nat.zero_add] at hshift
  exact hshift

/-- A beginning of it leads no higher up. -/
theorem Balanced.beginning {s t : List Char} (h : Balanced s) (ht : t <+: s) (depth : Nat) :
    ∃ p, walk (.outside depth) t = some p ∧ depth ≤ p.depth := by
  obtain ⟨u, rfl⟩ := ht
  rw [Balanced, walk_append] at h
  cases hwalk : walk (.outside 0) t with
  | none => simp [hwalk] at h
  | some p =>
    have hshift := walk_shift hwalk depth
    rw [Place.shift, Nat.zero_add] at hshift
    exact ⟨p.shift depth, hshift, by simp⟩

/-! ## The reader walks the same way -/

theorem scanString_walk {mode : Mode} {cs rest : List Char} {units : List Nat}
    (h : scanString mode cs = some (units, rest)) (depth : Nat) :
    walk (.inside mode depth) cs = walk (.outside depth) rest := by
  induction cs generalizing mode units with
  | nil => cases h
  | cons c cs ih =>
    rw [scanString] at h
    rw [walk, Place.step]
    cases hstep : mode.step c with
    | fail => simp [hstep] at h
    | close =>
      rw [hstep] at h
      cases h
      rfl
    | next mode' more =>
      rw [hstep] at h
      obtain ⟨⟨following, r⟩, hscan, hr⟩ := Option.map_eq_some_iff.mp h
      cases hr
      exact ih hscan

theorem readString_walk {cs rest : List Char} {s : String} (h : readString cs = some (s, rest)) (depth : Nat) :
    walk (.inside .plain depth) cs = walk (.outside depth) rest := by
  obtain ⟨⟨units, r⟩, hscan, hr⟩ := Option.map_eq_some_iff.mp h
  cases hr
  exact scanString_walk hscan depth

theorem step_plain {c : Char} (h : atomChar c = true ∨ isBlank c = true) (depth : Nat) :
    (Place.outside depth).step c = some (.outside depth) := by
  have hne : ∀ d, atomChar d = false → isBlank d = false → c ≠ d := by
    rintro d hatom hblank rfl
    simp [hatom, hblank] at h
  simp only [Place.step]
  rw [if_neg (hne _ (by decide) (by decide)),
    if_neg (not_or.mpr ⟨hne _ (by decide) (by decide), hne _ (by decide) (by decide)⟩),
    if_neg (not_or.mpr ⟨hne _ (by decide) (by decide), hne _ (by decide) (by decide)⟩), if_pos]
  cases h with
  | inl h => exact .inl h
  | inr h => exact .inr (.inl h)

theorem skipBlanks_walk (cs : List Char) (depth : Nat) :
    walk (.outside depth) (skipBlanks cs) = walk (.outside depth) cs := by
  induction cs with
  | nil => rfl
  | cons c cs ih =>
    by_cases hc : isBlank c = true
    · have hskip : skipBlanks (c :: cs) = skipBlanks cs := by simp [skipBlanks, hc]
      rw [hskip, ih, walk, step_plain (.inr hc)]
      rfl
    · rw [skipBlanks_cons (by simpa using hc)]

theorem dropWhile_walk (cs : List Char) (depth : Nat) :
    walk (.outside depth) (cs.dropWhile atomChar) = walk (.outside depth) cs := by
  induction cs with
  | nil => rfl
  | cons c cs ih =>
    by_cases hc : atomChar c = true
    · rw [List.dropWhile_cons_of_pos hc, ih, walk, step_plain (.inl hc)]
      rfl
    · rw [List.dropWhile_cons_of_neg hc]

theorem expect_eq_some {c : Char} {cs rest : List Char} (h : expect c cs = some rest) : cs = c :: rest := by
  cases cs with
  | nil => cases h
  | cons d cs =>
    rw [expect] at h
    split at h
    · rename_i hd
      cases h
      rw [hd]
    · cases h

theorem walk_open {c : Char} (h : c = '{' ∨ c = '[') (cs : List Char) (depth : Nat) :
    walk (.outside depth) (c :: cs) = walk (.outside (depth + 1)) cs := by
  obtain rfl | rfl := h <;> rfl

theorem walk_close {c : Char} (h : c = '}' ∨ c = ']') (cs : List Char) (depth : Nat) :
    walk (.outside (depth + 1)) (c :: cs) = walk (.outside depth) cs := by
  obtain rfl | rfl := h <;> rfl

theorem walk_separator {c : Char} (h : c = ':' ∨ c = ',') (cs : List Char) (depth : Nat) :
    walk (.outside depth) (c :: cs) = walk (.outside depth) cs := by
  obtain rfl | rfl := h <;> rfl

/-- A separator behind blanks. -/
theorem expect_walk {c : Char} {cs rest : List Char} (h : expect c (skipBlanks cs) = some rest) (depth : Nat) :
    walk (.outside depth) cs = walk (.outside depth) (c :: rest) := by
  rw [← skipBlanks_walk cs depth, expect_eq_some h]

variable {floats : Floats}

/-- Reading a value, reading fields to a closing brace and reading items to a closing
bracket, by induction on the fuel. -/
theorem reader_walk (fuel : Nat) :
    (∀ cs v rest, value floats fuel cs = some (v, rest) → ∀ depth, walk (.outside depth) cs = walk (.outside depth) rest) ∧
    (∀ cs d d' rest, members floats fuel d cs = some (d', rest) →
      ∀ depth, walk (.outside (depth + 1)) cs = walk (.outside depth) rest) ∧
    (∀ cs items rest, elements floats fuel cs = some (items, rest) →
      ∀ depth, walk (.outside (depth + 1)) cs = walk (.outside depth) rest) := by
  induction fuel with
  | zero =>
    refine ⟨?_, ?_, ?_⟩
    · intro cs v rest h
      cases h
    · intro cs d d' rest h
      cases h
    · intro cs items rest h
      cases h
  | succ fuel ih =>
    obtain ⟨ihValue, ihMembers, ihElements⟩ := ih
    refine ⟨?_, ?_, ?_⟩
    · intro cs v rest h depth
      cases cs with
      | nil => cases h
      | cons c cs =>
        rw [value] at h
        by_cases hquote : c = '"'
        · rw [if_pos hquote] at h
          obtain ⟨⟨s, r⟩, hread, hr⟩ := Option.map_eq_some_iff.mp h
          cases hr
          rw [hquote]
          exact readString_walk hread depth
        by_cases hobject : c = '{'
        · rw [if_neg hquote, if_pos hobject] at h
          rw [walk_open (.inl hobject), ← skipBlanks_walk]
          cases hexpect : expect '}' (skipBlanks cs) with
          | some r =>
            rw [hexpect] at h
            cases h
            rw [expect_eq_some hexpect, walk_close (.inl rfl)]
          | none =>
            rw [hexpect] at h
            obtain ⟨⟨d, r⟩, hread, hr⟩ := Option.map_eq_some_iff.mp h
            cases hr
            exact ihMembers _ _ _ _ hread depth
        by_cases hlist : c = '['
        · rw [if_neg hquote, if_neg hobject, if_pos hlist] at h
          rw [walk_open (.inr hlist), ← skipBlanks_walk]
          cases hexpect : expect ']' (skipBlanks cs) with
          | some r =>
            rw [hexpect] at h
            cases h
            rw [expect_eq_some hexpect, walk_close (.inr rfl)]
          | none =>
            rw [hexpect] at h
            obtain ⟨⟨items, r⟩, hread, hr⟩ := Option.map_eq_some_iff.mp h
            cases hr
            exact ihElements _ _ _ hread depth
        · rw [if_neg hquote, if_neg hobject, if_neg hlist] at h
          obtain ⟨w, -, hw⟩ := Option.map_eq_some_iff.mp h
          cases hw
          exact (dropWhile_walk (c :: cs) depth).symm
    · intro cs d d' rest h depth
      rw [members] at h
      simp only [Option.bind_eq_bind, Option.bind_eq_some_iff] at h
      obtain ⟨body, hquote, ⟨key, r⟩, hkey, r₁, hcolon, ⟨v, r₂⟩, hvalue, h⟩ := h
      rw [expect_eq_some hquote]
      have hstart : walk (.outside (depth + 1)) ('"' :: body) = walk (.outside (depth + 1)) r :=
        readString_walk hkey (depth + 1)
      rw [hstart, expect_walk hcolon, walk_separator (.inl rfl), ← skipBlanks_walk, ihValue _ _ _ hvalue]
      cases hclose : expect '}' (skipBlanks r₂) with
      | some r₃ =>
        simp only [hclose] at h
        cases h
        rw [expect_walk hclose, walk_close (.inl rfl)]
      | none =>
        simp only [hclose, Option.bind_eq_some_iff] at h
        obtain ⟨r₃, hcomma, h⟩ := h
        rw [expect_walk hcomma, walk_separator (.inr rfl), ← skipBlanks_walk]
        exact ihMembers _ _ _ _ h depth
    · intro cs items rest h depth
      rw [elements] at h
      simp only [Option.bind_eq_bind, Option.bind_eq_some_iff] at h
      obtain ⟨⟨v, r⟩, hvalue, h⟩ := h
      rw [ihValue _ _ _ hvalue]
      cases hclose : expect ']' (skipBlanks r) with
      | some r₁ =>
        simp only [hclose] at h
        cases h
        rw [expect_walk hclose, walk_close (.inr rfl)]
      | none =>
        simp only [hclose, Option.bind_eq_some_iff] at h
        obtain ⟨r₁, hcomma, h⟩ := h
        obtain ⟨⟨more, r₂⟩, hread, hr⟩ := Option.map_eq_some_iff.mp h
        cases hr
        rw [expect_walk hcomma, walk_separator (.inr rfl), ← skipBlanks_walk]
        exact ihElements _ _ _ hread depth

/-- What `loads` accepts is balanced. -/
theorem balanced_of_loads {s : List Char} {v : Json} (h : loads floats s = some v) : Balanced s := by
  rw [loads] at h
  cases hvalue : value floats (s.length + 1) (skipBlanks s) with
  | none => simp [hvalue] at h
  | some r =>
    obtain ⟨w, rest⟩ := r
    simp only [hvalue] at h
    split at h
    · rename_i hrest
      rw [Balanced, ← skipBlanks_walk, (reader_walk _).1 _ _ _ hvalue, ← skipBlanks_walk rest, hrest]
      rfl
    · cases h

theorem balanced_dumps {v : Json} (hv : Valid floats v) : Balanced (dumps v) := balanced_of_loads (loads_dumps hv)

/-! ## Cut texts -/

theorem balanced_fields {fields : Dict} (h : ∀ f ∈ fields, Valid floats f.2) : Balanced (dumpsFields fields) := by
  induction fields with
  | nil => exact .nil
  | cons f fields ih =>
    have hkey : Balanced (encodeString f.1) := by
      have hstr := balanced_dumps (Valid.str f.1 : Valid floats (.str f.1))
      rw [dumps] at hstr
      exact hstr
    have hcomma : Balanced [',', ' '] := rfl
    have hcolon : Balanced [':', ' '] := rfl
    have hvalue := balanced_dumps (h f List.mem_cons_self)
    have hrest := ih fun g hg => h g (List.mem_cons_of_mem f hg)
    rw [dumpsFields]
    exact (((hcomma.append hkey).append hcolon).append hvalue).append hrest

/-- The text of an object is something balanced between braces. -/
theorem dumps_object {fields : Dict} (hv : Valid floats (.obj fields)) :
    ∃ inner, dumps (.obj fields) = '{' :: (inner ++ ['}']) ∧ Balanced inner := by
  cases hv with
  | obj hkeys h =>
    cases fields with
    | nil => exact ⟨[], rfl, .nil⟩
    | cons f fields =>
      have hall := balanced_fields h
      have hcut : dumpsFields (f :: fields) =
          ',' :: ' ' :: (encodeString f.1 ++ [':', ' '] ++ dumps f.2 ++ dumpsFields fields) := by
        simp [dumpsFields]
      rw [hcut] at hall
      exact ⟨encodeString f.1 ++ [':', ' '] ++ dumps f.2 ++ dumpsFields fields, by rw [dumps], hall⟩

/-- The object stays open in every beginning of its text. -/
theorem beginning_open {fields : Dict} (hv : Valid floats (.obj fields)) {t : List Char} (ht : t <+: dumps (.obj fields))
    (hne : t ≠ []) (hcut : t ≠ dumps (.obj fields)) : ∃ p, walk (.outside 0) t = some p ∧ 1 ≤ p.depth := by
  obtain ⟨inner, htext, hinner⟩ := dumps_object hv
  rw [htext] at ht hcut
  cases t with
  | nil => exact absurd rfl hne
  | cons c t =>
    obtain ⟨rfl, hrest⟩ := List.cons_prefix_cons.mp ht
    have hbody : t <+: inner := by
      obtain hwhole | hbody := List.prefix_concat_iff.mp hrest
      · exact absurd (by rw [hwhole]) hcut
      · exact hbody
    exact hinner.beginning hbody 1

/-- An object that was cut short is no value. -/
theorem loads_cut {fields : Dict} (hv : Valid floats (.obj fields)) {t : List Char} (ht : t <+: dumps (.obj fields))
    (hcut : t ≠ dumps (.obj fields)) : loads floats t = none := by
  by_cases hne : t = []
  · subst hne
    rfl
  obtain ⟨p, hwalk, hdepth⟩ := beginning_open hv ht hne hcut
  cases hloads : loads floats t with
  | none => rfl
  | some v =>
    have hbalanced := balanced_of_loads hloads
    rw [Balanced, hwalk] at hbalanced
    cases hbalanced
    exact absurd hdepth (Nat.not_lt_zero _)

/-- A record whose first key is `seq` cannot go on in a string that was left open. -/
theorem walk_record_inside (mode : Mode) (depth : Nat) (cs : List Char) :
    walk (.inside mode depth) ('{' :: '"' :: 's' :: 'e' :: 'q' :: cs) = none := by
  cases mode with
  | plain => rfl
  | escape => rfl
  | unicode missing value => cases missing <;> rfl

/-- A record behind an object that was cut short is no value, and neither is one behind a
whole object. -/
theorem loads_merged {fields : Dict} (hv : Valid floats (.obj fields)) {t cs : List Char} (ht : t <+: dumps (.obj fields))
    (hne : t ≠ []) (hrecord : Balanced ('{' :: '"' :: 's' :: 'e' :: 'q' :: cs)) :
    loads floats (t ++ '{' :: '"' :: 's' :: 'e' :: 'q' :: cs) = none := by
  by_cases hcut : t = dumps (.obj fields)
  · have hread := value_dumps hv ((t ++ '{' :: '"' :: 's' :: 'e' :: 'q' :: cs).length + 1) ('{' :: '"' :: 's' :: 'e' :: 'q' :: cs)
      (by
        rw [hcut, List.length_append]
        omega)
      (ends_cons (by decide) _)
    have hskip := skipBlanks_dumps hv ('{' :: '"' :: 's' :: 'e' :: 'q' :: cs)
    rw [← hcut] at hread hskip
    rw [loads, hskip, hread]
    rfl
  · obtain ⟨p, hwalk, hdepth⟩ := beginning_open hv ht hne hcut
    cases hloads : loads floats (t ++ '{' :: '"' :: 's' :: 'e' :: 'q' :: cs) with
    | none => rfl
    | some v =>
      have hbalanced := balanced_of_loads hloads
      rw [Balanced, walk_append, hwalk, Option.bind_some] at hbalanced
      cases p with
      | outside depth =>
        rw [hrecord.outside depth] at hbalanced
        cases hbalanced
        exact absurd hdepth (Nat.not_lt_zero _)
      | inside mode depth =>
        rw [walk_record_inside] at hbalanced
        cases hbalanced

end JsonNesting
