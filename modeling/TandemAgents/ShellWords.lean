import Mathlib.Data.List.Basic

/-!
# Words of a shell command

A scanner for the words, operators and substitutions of a command text, by the quoting rules of
the shell, and the quoting of one word.
-/
namespace ShellWords

set_option maxRecDepth 20000

/-! ## The scanner -/

inductive Token where
  | word (text : List Char)
  | operator (c : Char)
  | substitution
  | unclosed
  deriving DecidableEq

/-- Where a character stands. -/
inductive Mode where
  | bare
  | escape
  | dollar
  | single
  | double
  | doubleEscape
  | doubleDollar
  | ansi
  | ansiEscape
  | comment
  deriving DecidableEq

/-- The mode and the word that is open. -/
structure State where
  mode : Mode
  word : Option (List Char)
  deriving DecidableEq

def start : State := ⟨.bare, none⟩

def operators : List Char := ['\n', ';', '&', '|', '<', '>', '(', ')']

/-- What makes a substitution of a dollar in front of it. -/
def openers : List Char := ['(', '{', '[']

def State.push (s : State) (mode : Mode) (text : List Char) : State := ⟨mode, some (s.word.getD [] ++ text)⟩

/-- The word that a blank or an operator ends. -/
def State.ended (s : State) : List Token := (s.word.map Token.word).toList

def bareStep (s : State) (c : Char) : State × List Token :=
  if c = ' ' ∨ c = '\t' then (start, s.ended)
  else if c ∈ operators then (start, s.ended ++ [.operator c])
  else if c = '\\' then ({ s with mode := .escape }, [])
  else if c = '$' then ({ s with mode := .dollar }, [])
  else if c = '\'' then (s.push .single [], [])
  else if c = '"' then (s.push .double [], [])
  else if c = '`' then (s, [.substitution])
  else if c = '#' ∧ s.word = none then ({ s with mode := .comment }, [])
  else (s.push .bare [c], [])

def doubleStep (s : State) (c : Char) : State × List Token :=
  if c = '"' then ({ s with mode := .bare }, [])
  else if c = '\\' then ({ s with mode := .doubleEscape }, [])
  else if c = '$' then ({ s with mode := .doubleDollar }, [])
  else if c = '`' then (s, [.substitution])
  else (s.push .double [c], [])

/-- One character. A line break behind a backslash belongs to no word; what stands behind a
backslash in `$'…'` is left as it is. -/
def step (s : State) (c : Char) : State × List Token :=
  match s.mode with
  | .bare => bareStep s c
  | .escape => if c = '\n' then ({ s with mode := .bare }, []) else (s.push .bare [c], [])
  | .dollar =>
    if c ∈ openers then (s.push .bare ['$', c], [.substitution])
    else if c = '\'' then (s.push .ansi [], [])
    else if c = '"' then (s.push .double [], [])
    else bareStep (s.push .bare ['$']) c
  | .single => if c = '\'' then ({ s with mode := .bare }, []) else (s.push .single [c], [])
  | .double => doubleStep s c
  | .doubleEscape =>
    if c ∈ ['$', '`', '"', '\\'] then (s.push .double [c], [])
    else if c = '\n' then ({ s with mode := .double }, [])
    else (s.push .double ['\\', c], [])
  | .doubleDollar =>
    if c ∈ openers then (s.push .double ['$', c], [.substitution])
    else doubleStep (s.push .double ['$']) c
  | .ansi =>
    if c = '\'' then ({ s with mode := .bare }, [])
    else if c = '\\' then (s.push .ansiEscape [c], [])
    else (s.push .ansi [c], [])
  | .ansiEscape => (s.push .ansi [c], [])
  | .comment => if c = '\n' then (start, [.operator c]) else (s, [])

/-- What is left at the end. A backslash or a dollar there is one. -/
def finish (s : State) : List Token :=
  match s.mode with
  | .bare => s.ended
  | .comment => s.ended
  | .escape => (s.push .bare ['\\']).ended
  | .dollar => (s.push .bare ['$']).ended
  | _ => [.unclosed]

def lex (s : State) : List Char → List Token
  | [] => finish s
  | c :: rest => (step s c).2 ++ lex (step s c).1 rest

/-- The state behind a text. -/
def after (s : State) (text : List Char) : State := text.foldl (fun s c => (step s c).1) s

/-- The tokens of a text but for what is open at its end. -/
def emitted (s : State) : List Char → List Token
  | [] => []
  | c :: rest => (step s c).2 ++ emitted (step s c).1 rest

def tokens (text : List Char) : List Token := lex start text

theorem lex_append (s : State) (a b : List Char) : lex s (a ++ b) = emitted s a ++ lex (after s a) b := by
  induction a generalizing s with
  | nil => rfl
  | cons c a ih => rw [List.cons_append, lex, emitted, ih, List.append_assoc]; rfl

theorem emitted_append (s : State) (a b : List Char) : emitted s (a ++ b) = emitted s a ++ emitted (after s a) b := by
  induction a generalizing s with
  | nil => rfl
  | cons c a ih => rw [List.cons_append, emitted, emitted, ih, List.append_assoc]; rfl

theorem after_append (s : State) (a b : List Char) : after s (a ++ b) = after (after s a) b := List.foldl_append

/-! ## Quiet texts -/

/-- Whether a character is an operator or begins a substitution where it stands. -/
def disturbs (s : State) (c : Char) : Bool :=
  match s.mode with
  | .bare => decide (c ∈ operators ∨ c = '`')
  | .dollar => decide (c ∈ openers ∨ c ∈ operators ∨ c = '`')
  | .double => decide (c = '`')
  | .doubleDollar => decide (c ∈ openers ∨ c = '`')
  | .comment => decide (c = '\n')
  | _ => false

/-- No quotes are open. -/
def State.closed (s : State) : Bool := decide (s.mode ∈ [.bare, .comment, .escape, .dollar])

/-- No character of a text is an operator or begins a substitution. -/
def Still (s : State) (text : List Char) : Prop :=
  ∀ front c back, text = front ++ c :: back → disturbs (after s front) c = false

/-- A still text whose quotes are closed. -/
def Quiet (s : State) (text : List Char) : Prop := Still s text ∧ (after s text).closed = true

theorem still_cons {s : State} {c : Char} {rest : List Char} :
    Still s (c :: rest) ↔ disturbs s c = false ∧ Still (step s c).1 rest := by
  constructor
  · intro h
    exact ⟨h [] c rest rfl, fun front d back hrest => h (c :: front) d back (by rw [hrest]; rfl)⟩
  · rintro ⟨hc, hrest⟩ front d back htext
    cases front with
    | nil =>
      obtain ⟨rfl, -⟩ := List.cons.inj htext
      exact hc
    | cons e front =>
      obtain ⟨rfl, hback⟩ := List.cons.inj htext
      exact hrest front d back hback

theorem quiet_cons {s : State} {c : Char} {rest : List Char} :
    Quiet s (c :: rest) ↔ disturbs s c = false ∧ Quiet (step s c).1 rest := by
  rw [Quiet, Quiet, still_cons, and_assoc]
  rfl

/-- What a character that is an operator or begins a substitution gives. -/
inductive Disturbed (s : State) (c : Char) : Prop where
  | operator (words : List (List Char)) : (step s c).2 = words.map Token.word ++ [.operator c] → (step s c).1 = start →
      Disturbed s c
  | substitution : (step s c).2 = [.substitution] → c ≠ ';' → Disturbed s c

theorem ended_words (s : State) : ∃ words : List (List Char), s.ended = words.map Token.word :=
  ⟨s.word.toList, by rw [State.ended]; cases s.word <;> rfl⟩

theorem bareStep_still {s : State} {c : Char} (h : ¬(c ∈ operators ∨ c = '`')) :
    ∃ words : List (List Char), (bareStep s c).2 = words.map Token.word := by
  rw [not_or] at h
  rw [bareStep]
  split
  · exact ended_words s
  · rw [if_neg h.1]
    repeat' split
    all_goals first
      | exact ⟨[], rfl⟩
      | exact absurd ‹c = '`'› h.2

theorem bareStep_operator {s : State} {c : Char} (h : c ∈ operators) :
    ∃ words : List (List Char), bareStep s c = (start, words.map Token.word ++ [.operator c]) := by
  obtain ⟨words, hwords⟩ := ended_words s
  refine ⟨words, ?_⟩
  have hblank : ¬(c = ' ' ∨ c = '\t') := by
    rintro (rfl | rfl) <;> exact absurd h (by decide)
  rw [bareStep, if_neg hblank, if_pos h, hwords]

theorem doubleStep_still {s : State} {c : Char} (h : c ≠ '`') : (doubleStep s c).2 = [] := by
  rw [doubleStep]
  repeat' split
  all_goals rfl

theorem step_still {s : State} {c : Char} (h : disturbs s c = false) :
    ∃ words : List (List Char), (step s c).2 = words.map Token.word := by
  obtain ⟨mode, word⟩ := s
  cases mode with
  | bare => exact bareStep_still (of_decide_eq_false h)
  | dollar =>
    have hnot := of_decide_eq_false h
    rw [not_or] at hnot
    simp only [step, if_neg hnot.1]
    split
    · exact ⟨[], rfl⟩
    · split
      · exact ⟨[], rfl⟩
      · exact bareStep_still hnot.2
  | double => exact ⟨[], doubleStep_still (of_decide_eq_false h)⟩
  | doubleDollar =>
    have hnot := of_decide_eq_false h
    rw [not_or] at hnot
    simp only [step, if_neg hnot.1]
    exact ⟨[], doubleStep_still hnot.2⟩
  | comment =>
    simp only [step, if_neg (of_decide_eq_false h)]
    exact ⟨[], rfl⟩
  | escape => simp only [step]; split <;> exact ⟨[], rfl⟩
  | single => simp only [step]; split <;> exact ⟨[], rfl⟩
  | doubleEscape => simp only [step]; repeat' split
                    all_goals exact ⟨[], rfl⟩
  | ansi => simp only [step]; repeat' split
            all_goals exact ⟨[], rfl⟩
  | ansiEscape => exact ⟨[], rfl⟩

theorem step_disturbed {s : State} {c : Char} (h : disturbs s c = true) : Disturbed s c := by
  obtain ⟨mode, word⟩ := s
  have hbare : ∀ t : State, c ∈ operators ∨ c = '`' → bareStep t c = step ⟨mode, word⟩ c → Disturbed ⟨mode, word⟩ c := by
    rintro t (hc | rfl) hstep
    · obtain ⟨words, hwords⟩ := bareStep_operator (s := t) hc
      rw [hwords] at hstep
      exact .operator words (congrArg Prod.snd hstep).symm (congrArg Prod.fst hstep).symm
    · exact .substitution (congrArg Prod.snd hstep).symm (by decide)
  cases mode with
  | bare => exact hbare ⟨.bare, word⟩ (of_decide_eq_true h) rfl
  | dollar =>
    by_cases hopen : c ∈ openers
    · refine .substitution (by simp only [step, if_pos hopen]) ?_
      rintro rfl
      exact absurd hopen (by decide)
    · have hc := (of_decide_eq_true h).resolve_left hopen
      have hquotes : c ≠ '\'' ∧ c ≠ '"' := by
        rcases hc with hc | rfl
        · constructor <;> rintro rfl <;> exact absurd hc (by decide)
        · decide
      exact hbare (State.push ⟨.dollar, word⟩ .bare ['$']) hc (by simp only [step, if_neg hopen, if_neg hquotes.1, if_neg hquotes.2])
  | double =>
    obtain rfl : c = '`' := of_decide_eq_true h
    exact .substitution rfl (by decide)
  | doubleDollar =>
    by_cases hopen : c ∈ openers
    · refine .substitution (by simp only [step, if_pos hopen]) ?_
      rintro rfl
      exact absurd hopen (by decide)
    · obtain rfl : c = '`' := (of_decide_eq_true h).resolve_left hopen
      exact .substitution rfl (by decide)
  | comment =>
    obtain rfl : c = '\n' := of_decide_eq_true h
    exact .operator [] rfl rfl
  | escape => cases h
  | single => cases h
  | doubleEscape => cases h
  | ansi => cases h
  | ansiEscape => cases h

/-! ## One command -/

theorem finish_closed {s : State} (h : s.closed = true) : ∃ words : List (List Char), finish s = words.map Token.word := by
  obtain ⟨mode, word⟩ := s
  cases mode with
  | bare => exact ended_words _
  | comment => exact ended_words _
  | escape => exact ended_words _
  | dollar => exact ended_words _
  | single => cases h
  | double => cases h
  | doubleEscape => cases h
  | doubleDollar => cases h
  | ansi => cases h
  | ansiEscape => cases h

theorem finish_open {s : State} (h : s.closed = false) : finish s = [.unclosed] := by
  obtain ⟨mode, word⟩ := s
  cases mode with
  | bare => cases h
  | comment => cases h
  | escape => cases h
  | dollar => cases h
  | single => rfl
  | double => rfl
  | doubleEscape => rfl
  | doubleDollar => rfl
  | ansi => rfl
  | ansiEscape => rfl

/-- A text is some words, or some words and a semicolon at the end. -/
def Words (s : State) (text : List Char) (words : List (List Char)) : Prop :=
  lex s text = words.map Token.word ∨ lex s text = words.map Token.word ++ [.operator ';']

/-- A semicolon that nothing but blanks and a comment follows. -/
def LastSemicolon (s : State) (text : List Char) : Prop :=
  ∃ front back, text = front ++ ';' :: back ∧ Still s front ∧ disturbs (after s front) ';' = true ∧ tokens back = []

theorem lastSemicolon_cons {s : State} {c : Char} {rest : List Char} (h : disturbs s c = false) :
    LastSemicolon s (c :: rest) ↔ LastSemicolon (step s c).1 rest := by
  constructor
  · rintro ⟨front, back, htext, hstill, hlast, hback⟩
    cases front with
    | nil =>
      obtain ⟨rfl, -⟩ := List.cons.inj htext
      rw [after, List.foldl_nil, h] at hlast
      cases hlast
    | cons d front =>
      obtain ⟨rfl, rfl⟩ := List.cons.inj htext
      exact ⟨front, back, rfl, (still_cons.mp hstill).2, hlast, hback⟩
  · rintro ⟨front, back, rfl, hstill, hlast, hback⟩
    exact ⟨c :: front, back, rfl, still_cons.mpr ⟨h, hstill⟩, hlast, hback⟩

/-- Words in front of some tokens. -/
theorem append_words {tail : List Token} (htail : ∀ w rest, tail ≠ .word w :: rest) (front : List (List Char))
    {later : List Token} : (∃ words : List (List Char), front.map Token.word ++ later = words.map Token.word ++ tail) ↔
      ∃ words : List (List Char), later = words.map Token.word ++ tail := by
  induction front with
  | nil => rfl
  | cons w front ih =>
    rw [← ih, List.map_cons, List.cons_append]
    constructor
    · rintro ⟨words, h⟩
      cases words with
      | nil => exact absurd h.symm (htail w _)
      | cons v words => exact ⟨words, (List.cons.inj h).2⟩
    · rintro ⟨words, h⟩
      exact ⟨w :: words, by rw [h]; rfl⟩

theorem words_tails {later : List Token} : (∃ words : List (List Char), later = words.map Token.word ∨
    later = words.map Token.word ++ [.operator ';']) ↔
      (∃ words : List (List Char), later = words.map Token.word ++ []) ∨
        ∃ words : List (List Char), later = words.map Token.word ++ [.operator ';'] := by
  simp only [List.append_nil, exists_or]

/-- Words in front of some tokens change nothing. -/
theorem words_front (front : List (List Char)) (later : List Token) :
    (∃ words : List (List Char), front.map Token.word ++ later = words.map Token.word ∨
      front.map Token.word ++ later = words.map Token.word ++ [.operator ';']) ↔
    ∃ words : List (List Char), later = words.map Token.word ∨ later = words.map Token.word ++ [.operator ';'] := by
  rw [words_tails, words_tails, append_words (by simp), append_words (by simp)]

/-- A token that is no word, alone or with more behind it. -/
theorem words_other {t : Token} (ht : ∀ w, t ≠ .word w) (later : List Token) :
    (∃ words : List (List Char), t :: later = words.map Token.word ∨ t :: later = words.map Token.word ++ [.operator ';']) ↔
      t = .operator ';' ∧ later = [] := by
  constructor
  · rintro ⟨words, h⟩
    cases words with
    | nil =>
      rcases h with h | h
      · cases h
      · exact List.cons.inj h
    | cons w words =>
      rcases h with h | h
      · exact absurd (List.cons.inj h).1 (ht w)
      · exact absurd (List.cons.inj h).1 (ht w)
  · rintro ⟨rfl, rfl⟩
    exact ⟨[], .inr rfl⟩

theorem lastSemicolon_disturbed {s : State} {c : Char} {rest : List Char} (h : disturbs s c = true) :
    LastSemicolon s (c :: rest) ↔ c = ';' ∧ tokens rest = [] := by
  constructor
  · rintro ⟨front, back, htext, hstill, -, hback⟩
    cases front with
    | nil =>
      obtain ⟨rfl, rfl⟩ := List.cons.inj htext
      exact ⟨rfl, hback⟩
    | cons d front =>
      obtain ⟨rfl, -⟩ := List.cons.inj htext
      rw [(still_cons.mp hstill).1] at h
      cases h
  · rintro ⟨rfl, hrest⟩
    exact ⟨[], rest, rfl, fun front d back hnil => by simp at hnil, h, hrest⟩

/-- A text is one command exactly when nothing in it but a semicolon at its end is more than a word. -/
theorem words_iff (s : State) (text : List Char) :
    (∃ words, Words s text words) ↔ Quiet s text ∨ LastSemicolon s text := by
  induction text generalizing s with
  | nil =>
    have hstill : Still s [] := fun front c back h => by simp at h
    have hlast : ¬LastSemicolon s [] := by
      rintro ⟨front, back, h, -⟩
      simp at h
    rw [Quiet, and_iff_right hstill, or_iff_left hlast]
    cases hclosed : s.closed with
    | true =>
      obtain ⟨words, hwords⟩ := finish_closed hclosed
      exact iff_of_true ⟨words, .inl hwords⟩ hclosed
    | false =>
      have hopen := words_other (t := .unclosed) (by simp) []
      simp only [Words, lex, finish_open hclosed, hopen]
      simp [after, hclosed]
  | cons c rest ih =>
    cases hc : disturbs s c with
    | false =>
      obtain ⟨front, hfront⟩ := step_still hc
      rw [quiet_cons, and_iff_right hc, lastSemicolon_cons hc, ← ih]
      simp only [Words, lex, hfront]
      exact words_front front _
    | true =>
      have hquiet : ¬Quiet s (c :: rest) := by
        rw [quiet_cons, hc]
        simp
      rw [or_iff_right hquiet, lastSemicolon_disturbed hc]
      cases step_disturbed hc with
      | operator front hfront hstart =>
        have hword : ∀ w, Token.operator c ≠ .word w := by simp
        simp only [Words, lex, hfront, hstart, List.append_assoc, List.singleton_append]
        rw [words_front, words_other hword, Token.operator.injEq]
        rfl
      | substitution hsub hne =>
        have hword : ∀ w, Token.substitution ≠ .word w := by simp
        simp only [Words, lex, hsub, List.singleton_append]
        rw [words_other hword]
        simp [hne]

/-! ## Quoting -/

def isSafe (c : Char) : Bool := c.isAlphanum || decide (c ∈ ['_', '@', '%', '+', '=', ':', ',', '.', '/', '-'])

/-- `shlex.quote`. -/
def quote (text : List Char) : List Char :=
  if text ≠ [] ∧ text.all isSafe = true then text
  else '\'' :: (text.flatMap fun c => if c = '\'' then ['\'', '"', '\'', '"', '\''] else [c]) ++ ['\'']

/-- A text that is read without a token gives one more piece of the open word. -/
def Reads (s : State) (text : List Char) (t : State) : Prop := emitted s text = [] ∧ after s text = t

theorem Reads.append {s t u : State} {a b : List Char} (h : Reads s a t) (h' : Reads t b u) : Reads s (a ++ b) u := by
  constructor
  · rw [emitted_append, h.1, h.2, h'.1]
    rfl
  · rw [after_append, h.2, h'.2]

theorem bareStep_safe {s : State} {c : Char} (h : isSafe c = true) : bareStep s c = (s.push .bare [c], []) := by
  have hne : ∀ d, isSafe d = false → c ≠ d := by
    rintro d hd rfl
    rw [h] at hd
    cases hd
  have hblank : ¬(c = ' ' ∨ c = '\t') := not_or.mpr ⟨hne _ (by decide), hne _ (by decide)⟩
  have hoperator : c ∉ operators := by
    intro hc
    have hspecial : operators.all (fun d => !isSafe d) = true := by decide
    exact hne c (by simpa using List.all_eq_true.mp hspecial c hc) rfl
  have hhash : ¬(c = '#' ∧ s.word = none) := fun hc => hne '#' (by decide) hc.1
  rw [bareStep, if_neg hblank, if_neg hoperator, if_neg (hne _ (by decide)), if_neg (hne _ (by decide)), if_neg (hne _ (by decide)),
    if_neg (hne _ (by decide)), if_neg (hne _ (by decide)), if_neg hhash]

theorem reads_safe {text : List Char} (h : ∀ c ∈ text, isSafe c = true) (w : List Char) :
    Reads ⟨.bare, some w⟩ text ⟨.bare, some (w ++ text)⟩ := by
  induction text generalizing w with
  | nil =>
    rw [List.append_nil]
    exact ⟨rfl, rfl⟩
  | cons c text ih =>
    have hstep : Reads ⟨.bare, some w⟩ [c] ⟨.bare, some (w ++ [c])⟩ := by
      have hsafe := bareStep_safe (s := ⟨.bare, some w⟩) (h c List.mem_cons_self)
      exact ⟨by rw [emitted, emitted, step, hsafe]; rfl, by rw [after, List.foldl_cons, List.foldl_nil, step, hsafe]; rfl⟩
    have hall := hstep.append (ih (fun d hd => h d (List.mem_cons_of_mem c hd)) (w ++ [c]))
    rwa [List.append_assoc] at hall

/-- What stands between the quotes is the text itself. -/
theorem reads_single (text w : List Char) :
    Reads ⟨.single, some w⟩ (text.flatMap fun c => if c = '\'' then ['\'', '"', '\'', '"', '\''] else [c])
      ⟨.single, some (w ++ text)⟩ := by
  induction text generalizing w with
  | nil =>
    rw [List.append_nil]
    exact ⟨rfl, rfl⟩
  | cons c text ih =>
    have hstep : Reads ⟨.single, some w⟩ (if c = '\'' then ['\'', '"', '\'', '"', '\''] else [c]) ⟨.single, some (w ++ [c])⟩ := by
      by_cases hc : c = '\''
      · subst hc
        refine ⟨rfl, ?_⟩
        rw [if_pos rfl]
        simp [after, step, bareStep, doubleStep, State.push, operators]
      · rw [if_neg hc]
        exact ⟨by simp [emitted, step, hc], by simp [after, step, hc, State.push]⟩
    have hall := hstep.append (ih (w ++ [c]))
    rwa [List.append_assoc] at hall

/-- A quoted text is one word. -/
theorem reads_quote (text : List Char) : Reads start (quote text) ⟨.bare, some text⟩ := by
  rw [quote]
  split
  · rename_i h
    obtain ⟨c, rest, rfl⟩ := List.exists_cons_of_ne_nil h.1
    have hsafe := List.all_eq_true.mp h.2
    have hfirst := bareStep_safe (s := start) (hsafe c List.mem_cons_self)
    have hstep : Reads start [c] ⟨.bare, some [c]⟩ :=
      ⟨by rw [emitted, emitted, step]; simp only [start] at hfirst ⊢; rw [hfirst]; rfl,
        by rw [after, List.foldl_cons, List.foldl_nil, step]; simp only [start] at hfirst ⊢; rw [hfirst]; rfl⟩
    exact hstep.append (reads_safe (fun d hd => hsafe d (List.mem_cons_of_mem c hd)) [c])
  · have hopen : Reads start ['\''] ⟨.single, some []⟩ := ⟨rfl, rfl⟩
    have hclose : Reads ⟨.single, some text⟩ ['\''] ⟨.bare, some text⟩ := ⟨rfl, rfl⟩
    exact (hopen.append (reads_single text [])).append hclose

end ShellWords
