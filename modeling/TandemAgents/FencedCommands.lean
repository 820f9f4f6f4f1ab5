import TandemAgents.ContractSections

/-!
# Commands between marks

`_verification_commands_from_task_text` looks for blocks of shell commands with one regular
expression, which knows marks and no blocks: a mark that closes a block in another language
opens one for it. What it reads is told by the lines with marks in front of a line.
-/
namespace FencedCommands

open JsonData PythonText Fences ContractSections

set_option maxRecDepth 20000

/-! ## The regular expression -/

def mark : List Char := ['`', '`', '`']

/-- A letter of the pattern in any case. The long s is an s in another case. -/
def sameLetter (letter c : Char) : Bool := asciiLower c = letter || (letter = 's' && c = 'ſ')

/-- What follows a word at the front of a text. -/
def dropWord : List Char → List Char → Option (List Char)
  | [], text => some text
  | _ :: _, [] => none
  | letter :: word, c :: text => if sameLetter letter c then dropWord word text else none

/-- `\s*\n`: what follows the last line break among the blanks at the front of a text. -/
def dropBlankLines (text : List Char) : Option (List Char) :=
  let blanks := text.takeWhile isSpace
  if '\n' ∈ blanks then some ((blanks.reverse.takeWhile (· ≠ '\n')).reverse ++ text.dropWhile isSpace) else none

/-- `(?:bash|sh|shell)?`, in the order of the attempts. -/
def languages : List (List Char) := [['b', 'a', 's', 'h'], ['s', 'h'], ['s', 'h', 'e', 'l', 'l'], []]

/-- What follows an opening mark, from where the body begins. -/
def bodyAfter (text : List Char) : Option (List Char) :=
  languages.findSome? fun language => (dropWord language text).bind dropBlankLines

/-- The text before the first mark and the text behind it. -/
def breakMark : List Char → Option (List Char × List Char)
  | [] => none
  | c :: rest =>
    if mark.isPrefixOf (c :: rest) = true then some ([], rest.drop 2)
    else (breakMark rest).map fun parts => (c :: parts.1, parts.2)

/-- The pattern at the front of a text: the body and what follows the match. -/
def matchAt (text : List Char) : Option (List Char × List Char) :=
  if mark.isPrefixOf text = true then (bodyAfter (text.drop 3)).bind breakMark else none

/-- `re.finditer`, in as many steps as there are characters at most. -/
def bodiesFrom : Nat → List Char → List (List Char)
  | 0, _ => []
  | _ + 1, [] => []
  | steps + 1, c :: rest =>
    match matchAt (c :: rest) with
    | some (body, after) => body :: bodiesFrom steps after
    | none => bodiesFrom steps rest

def bodies (text : List Char) : List (List Char) := bodiesFrom text.length text

/-! ## The commands -/

/-- The command of a line; blank lines and comments have none. -/
def command (line : List Char) : Option String :=
  let text := strip (String.ofList line)
  if text ≠ "" ∧ text.toList.head? ≠ some '#' then some text else none

def commandsOf (body : List Char) : List String := (EventLog.splitlines body).filterMap command

/-- `_verification_commands_from_text`. -/
def verificationCommandsFromText (text : List Char) : List String := (bodies text).flatMap commandsOf

section
variable (py : Python)

/-- The texts of a task that have more than blanks. -/
def taskTexts (task : Dict) : List (List Char) :=
  let contractBody := match task.get "task_contract" with
    | .obj fields => Dict.get fields "raw_issue_body"
    | _ => .null
  ([task.get "description", task.get "raw_issue_body", contractBody].map fun v => (py.text v).toList).filter
    fun text => decide (strip (String.ofList text) ≠ "")

/-- The text that is searched. -/
def taskText (task : Dict) : List Char := ['\n'].intercalate (taskTexts py task)

/-- `_verification_commands_from_task_text`. -/
def verificationCommandsFromTaskText (task : Dict) : List String :=
  (verificationCommandsFromText (taskText py task)).foldl
    (fun commands c => if c ∈ commands then commands else commands ++ [c]) []

end

/-! ## Blocks of shell commands -/

/-- The text behind the backticks of a fence. -/
def language (fence : List Char) : List Char := ((fence.dropWhile isSpace).dropWhile (· = '`')).dropWhile isSpace

/-- Nothing but the language of a shell, if anything. -/
def onlyLanguage (text : List Char) : Bool := languages.any fun name => (dropWord name text).any fun rest => rest.all isSpace

/-- A fence without a language, or with the language of a shell. -/
def isShellFence (fence : List Char) : Bool := onlyLanguage (language fence)

/-- The lines in shell blocks, from some line on. -/
def shellFrom (opened : Option (List Char)) (lines : List (List Char)) : List (List Char) :=
  (places isFence opened lines).filterMap fun entry =>
    match entry.2 with
    | .inside opening => if isShellFence opening = true then some entry.1 else none
    | _ => none

/-- The lines of a text in the blocks that shell fences open. -/
def shellLines (text : List Char) : List (List Char) := shellFrom none (text.splitOn '\n')

/-- Every command of a task is a line of a shell block of one of its texts. -/
def OnlyShellLines (py : Python) (task : Dict) : Prop :=
  ∀ c ∈ verificationCommandsFromTaskText py task,
    ∃ text ∈ taskTexts py task, ∃ line ∈ shellLines text, c ∈ commandsOf line

/-! ## Reading by lines -/

/-- A line with a mark. -/
def marked (line : List Char) : Bool := (breakMark line).isSome

/-- A mark at the end of a line with nothing behind it but the language of a shell. -/
def opens : List Char → Bool
  | [] => false
  | c :: rest => (mark.isPrefixOf (c :: rest) && onlyLanguage (rest.drop 2)) || opens rest

/-- The part of a line in front of its first mark. -/
def unmarked (line : List Char) : List Char := (breakMark line).elim line Prod.fst

/-- Whether the lines behind a line are read: a mark opens where nothing is read, and closes what
is read; a closed line may be opened again by a mark behind the first. -/
def reads (reading : Bool) (line : List Char) : Bool :=
  if reading = true then (breakMark line).elim true fun parts => opens parts.2 else opens line

/-- The commands of lines, where the first may be read. -/
def linesRead : Bool → List (List Char) → List String
  | _, [] => []
  | reading, line :: rest =>
    (if reading = true ∧ (line :: rest).any marked = true then commandsOf (unmarked line) else []) ++
      linesRead (reads reading line) rest

/-! ## Commands of texts put together -/

theorem command_blank {line : List Char} (h : ∀ c ∈ line, isSpace c = true) : command line = none := by
  have hblank : strip (String.ofList line) = "" := by
    have hdrop : line.dropWhile isSpace = [] := List.dropWhile_eq_nil_iff.mpr h
    rw [strip, stripBy, String.toList_ofList, hdrop]
    rfl
  simp [command, hblank]

@[simp] theorem command_nil : command [] = none := command_blank (List.forall_mem_nil _)

/-- The lines of a text are what stands between its breaks, but for nothing behind the last. -/
theorem lines_splitOnP (isEnd : Char → Bool) (text : List Char) :
    text.splitOnP isEnd = (EventLog.lines isEnd text).map (List.takeWhile fun c => !isEnd c) ∨
      text.splitOnP isEnd = (EventLog.lines isEnd text).map (List.takeWhile fun c => !isEnd c) ++ [[]] := by
  induction text with
  | nil => exact .inr rfl
  | cons c cs ih =>
    rw [List.splitOnP_cons_eq_if_modifyHead, EventLog.lines]
    by_cases hc : isEnd c = true
    · rw [if_pos hc, if_pos hc, List.map_cons]
      simpa [hc] using ih
    · rw [if_neg hc, if_neg hc]
      cases hlines : EventLog.lines isEnd cs with
      | nil =>
        have hnil : cs = [] := by
          cases cs with
          | nil => rfl
          | cons d ds =>
            exfalso
            rw [EventLog.lines] at hlines
            split at hlines
            · cases hlines
            · split at hlines <;> cases hlines
        left
        simp [hnil, hc]
      | cons line rest =>
        rw [hlines, List.map_cons] at ih
        rcases ih with ih | ih
        · left; simp [ih, hc]
        · right; simp [ih, hc]

/-- Seen through universal newlines a text has the same commands. -/
theorem splitOnP_universal (text : List Char) :
    (∃ first later later', text.splitOnP EventLog.isBoundary = first :: later ∧
      (EventLog.universalNewlines false text).splitOnP EventLog.isBoundary = first :: later' ∧
      later'.filterMap command = later.filterMap command) ∧
    ((EventLog.universalNewlines true text).splitOnP EventLog.isBoundary).filterMap command =
      (text.splitOnP EventLog.isBoundary).filterMap command := by
  have hn : EventLog.isBoundary '\n' = true := by decide
  have hr : EventLog.isBoundary '\r' = true := by decide
  induction text with
  | nil => exact ⟨⟨[], [], [], rfl, rfl, rfl⟩, rfl⟩
  | cons c cs ih =>
    obtain ⟨⟨first, later, later', hplain, huniv, hsame⟩, hafter⟩ := ih
    rw [List.splitOnP_cons_eq_if_modifyHead]
    by_cases hc : c = '\r'
    · subst hc
      simp [EventLog.universalNewlines, List.splitOnP_cons_eq_if_modifyHead, hn, hr, hafter]
    · by_cases hnl : c = '\n'
      · subst hnl
        simp [EventLog.universalNewlines, List.splitOnP_cons_eq_if_modifyHead, hn, huniv, hplain, hsame, List.filterMap_cons]
      · by_cases hb : EventLog.isBoundary c = true
        · simp [EventLog.universalNewlines, List.splitOnP_cons_eq_if_modifyHead, hc, hnl, hb, huniv, hplain, hsame,
            List.filterMap_cons]
        · simp [EventLog.universalNewlines, List.splitOnP_cons_eq_if_modifyHead, hc, hnl, hb, huniv, hplain, hsame,
            List.filterMap_cons]

theorem commandsOf_eq (body : List Char) : commandsOf body = (body.splitOnP EventLog.isBoundary).filterMap command := by
  obtain ⟨⟨first, later, later', hplain, huniv, hsame⟩, -⟩ := splitOnP_universal body
  have hlines := lines_splitOnP EventLog.isBoundary (EventLog.universalNewlines false body)
  have hcommands : ((EventLog.universalNewlines false body).splitOnP EventLog.isBoundary).filterMap command =
      commandsOf body := by
    rw [commandsOf, EventLog.splitlines]
    rcases hlines with h | h <;> simp [h]
  rw [← hcommands, huniv, hplain, List.filterMap_cons, List.filterMap_cons, hsame]

/-- The commands of a text with a line break in it are those of its two parts. -/
theorem commandsOf_append (a b : List Char) : commandsOf (a ++ '\n' :: b) = commandsOf a ++ commandsOf b := by
  rw [commandsOf_eq, commandsOf_eq, commandsOf_eq, List.splitOnP_append_cons a b (by decide), List.filterMap_append]

theorem mem_splitOnP {p : Char → Bool} {text piece : List Char} (h : piece ∈ text.splitOnP p) {c : Char}
    (hc : c ∈ piece) : c ∈ text ∧ p c = false := by
  induction text generalizing piece with
  | nil =>
    rw [List.splitOnP_nil, List.mem_singleton] at h
    rw [h] at hc
    cases hc
  | cons d text ih =>
    obtain ⟨first, later, hsplit⟩ := List.exists_cons_of_ne_nil (List.splitOnP_ne_nil p text)
    rw [List.splitOnP_cons_eq_if_modifyHead, hsplit] at h
    rw [hsplit] at ih
    by_cases hd : p d = true
    · rw [if_pos hd] at h
      rcases List.mem_cons.mp h with rfl | h
      · cases hc
      · exact (ih h hc).imp_left (List.mem_cons_of_mem d)
    · rw [if_neg hd, List.modifyHead_cons] at h
      rcases List.mem_cons.mp h with rfl | h
      · rcases List.mem_cons.mp hc with rfl | hc
        · exact ⟨List.mem_cons_self, Bool.not_eq_true _ ▸ hd⟩
        · exact (ih List.mem_cons_self hc).imp_left (List.mem_cons_of_mem d)
      · exact (ih (List.mem_cons_of_mem first h) hc).imp_left (List.mem_cons_of_mem d)

theorem no_break {text line : List Char} (h : line ∈ text.splitOn '\n') : '\n' ∉ line := by
  intro hmem
  rw [List.splitOn_eq_splitOnP] at h
  have hfalse := (mem_splitOnP h hmem).2
  simp at hfalse

theorem commandsOf_blank {body : List Char} (h : ∀ c ∈ body, isSpace c = true) : commandsOf body = [] := by
  rw [commandsOf_eq, List.filterMap_eq_nil_iff]
  intro piece hpiece
  apply command_blank
  intro c hc
  exact h c (mem_splitOnP hpiece hc).1

/-! ## Marks in a text of lines -/

/-- No mark reaches over a line break. -/
theorem mark_append (line tail : List Char) :
    mark.isPrefixOf (line ++ '\n' :: tail) = mark.isPrefixOf line := by
  match line with
  | [] => rfl
  | [a] => simp [mark, List.isPrefixOf]
  | [a, b] => simp [mark, List.isPrefixOf]
  | a :: b :: c :: rest => simp [mark, List.isPrefixOf]

/-- The first mark of a text is in its first line or behind it. -/
theorem breakMark_append {line : List Char} (hline : '\n' ∉ line) (tail : List Char) :
    breakMark (line ++ '\n' :: tail) = match breakMark line with
      | some parts => some (parts.1, parts.2 ++ '\n' :: tail)
      | none => (breakMark tail).map fun parts => (line ++ '\n' :: parts.1, parts.2) := by
  induction line with
  | nil => simp [breakMark, mark, List.isPrefixOf]
  | cons c rest ih =>
    have hrest : '\n' ∉ rest := fun h => hline (List.mem_cons_of_mem c h)
    rw [List.cons_append, breakMark, breakMark, ← List.cons_append, mark_append, ih hrest]
    by_cases hmark : mark.isPrefixOf (c :: rest) = true
    · rw [if_pos hmark, if_pos hmark]
      have hlen : 2 ≤ rest.length := by
        have hle := (List.isPrefixOf_iff_prefix.mp hmark).length_le
        simp only [mark, List.length_cons, List.length_nil] at hle
        omega
      simp [List.drop_append_of_le_length hlen]
    · rw [if_neg hmark, if_neg hmark]
      cases breakMark rest with
      | none => simp [Function.comp_def]
      | some parts => rfl

theorem breakMark_length {text : List Char} {parts : List Char × List Char} (h : breakMark text = some parts) :
    parts.2.length + 3 ≤ text.length := by
  induction text generalizing parts with
  | nil => cases h
  | cons c rest ih =>
    rw [breakMark] at h
    by_cases hmark : mark.isPrefixOf (c :: rest) = true
    · rw [if_pos hmark] at h
      have hle := (List.isPrefixOf_iff_prefix.mp hmark).length_le
      simp only [mark, List.length_cons, List.length_nil] at hle
      rw [← Option.some.inj h, List.length_drop, List.length_cons]
      omega
    · rw [if_neg hmark] at h
      obtain ⟨found, hfound, rfl⟩ := Option.map_eq_some_iff.mp h
      have hshort := ih hfound
      have hlen : (c :: rest).length = rest.length + 1 := rfl
      simp only
      omega

theorem breakMark_mem {text : List Char} {parts : List Char × List Char} (h : breakMark text = some parts) {c : Char}
    (hc : c ∈ parts.1 ∨ c ∈ parts.2) : c ∈ text := by
  induction text generalizing parts with
  | nil => cases h
  | cons d rest ih =>
    rw [breakMark] at h
    by_cases hmark : mark.isPrefixOf (d :: rest) = true
    · rw [if_pos hmark] at h
      rw [← Option.some.inj h] at hc
      rcases hc with hc | hc
      · cases hc
      · exact List.mem_cons_of_mem d (List.mem_of_mem_drop hc)
    · rw [if_neg hmark] at h
      obtain ⟨found, hfound, rfl⟩ := Option.map_eq_some_iff.mp h
      rcases hc with hc | hc
      · rcases List.mem_cons.mp hc with rfl | hc
        · exact List.mem_cons_self
        · exact List.mem_cons_of_mem d (ih hfound (.inl hc))
      · exact List.mem_cons_of_mem d (ih hfound (.inr hc))

/-! ## Bodies -/

theorem dropWord_length {word text rest : List Char} (h : dropWord word text = some rest) : rest.length ≤ text.length := by
  induction word generalizing text with
  | nil => rw [dropWord] at h; rw [Option.some.inj h]
  | cons letter word ih =>
    cases text with
    | nil => cases h
    | cons c text =>
      rw [dropWord] at h
      split at h
      · have hshort := ih h
        rw [List.length_cons]
        omega
      · cases h

theorem dropWord_mem {word text rest : List Char} (h : dropWord word text = some rest) {c : Char} (hc : c ∈ rest) :
    c ∈ text := by
  induction word generalizing text with
  | nil =>
    rw [dropWord] at h
    rw [Option.some.inj h]
    exact hc
  | cons letter word ih =>
    cases text with
    | nil => cases h
    | cons d text =>
      rw [dropWord] at h
      split at h
      · exact List.mem_cons_of_mem d (ih h)
      · cases h

theorem dropBlankLines_length {text body : List Char} (h : dropBlankLines text = some body) :
    body.length ≤ text.length := by
  simp only [dropBlankLines, Option.ite_none_right_eq_some, Option.some.injEq] at h
  have hkept : ((text.takeWhile isSpace).reverse.takeWhile (· ≠ '\n')).length ≤
      (text.takeWhile isSpace).reverse.length := (List.takeWhile_prefix _).length_le
  have hsplit := congrArg List.length (List.takeWhile_append_dropWhile (p := isSpace) (l := text))
  rw [List.length_reverse] at hkept
  rw [List.length_append] at hsplit
  rw [← h.2, List.length_append, List.length_reverse]
  omega

theorem bodyAfter_length {text body : List Char} (h : bodyAfter text = some body) : body.length ≤ text.length := by
  obtain ⟨name, -, hname⟩ := List.exists_of_findSome?_eq_some h
  obtain ⟨rest, hrest, hbody⟩ := Option.bind_eq_some_iff.mp hname
  exact (dropBlankLines_length hbody).trans (dropWord_length hrest)

theorem matchAt_length {text : List Char} {parts : List Char × List Char} (h : matchAt text = some parts) :
    parts.2.length < text.length := by
  rw [matchAt] at h
  split at h
  · rename_i hmark
    obtain ⟨body, hbody, hbreak⟩ := Option.bind_eq_some_iff.mp h
    have h₁ := bodyAfter_length hbody
    have h₂ := breakMark_length hbreak
    rw [List.length_drop] at h₁
    omega
  · cases h

theorem bodiesFrom_enough {steps text : _} (h : List.length text ≤ steps) : bodiesFrom steps text = bodies text := by
  have hany : ∀ n (text : List Char), text.length ≤ n → ∀ m, text.length ≤ m →
      bodiesFrom n text = bodiesFrom m text := by
    intro n
    induction n with
    | zero =>
      intro text hn m _
      obtain rfl := List.eq_nil_of_length_eq_zero (Nat.le_zero.mp hn)
      cases m <;> rfl
    | succ n ih =>
      intro text hn m hm
      cases text with
      | nil => cases m <;> rfl
      | cons c rest =>
        obtain ⟨m, rfl⟩ : ∃ k, m = k + 1 := ⟨m - 1, by rw [List.length_cons] at hm; omega⟩
        rw [bodiesFrom, bodiesFrom]
        rw [List.length_cons] at hn hm
        cases hmatch : matchAt (c :: rest) with
        | none => exact ih rest (by omega) m (by omega)
        | some parts =>
          have hshort := matchAt_length hmatch
          rw [List.length_cons] at hshort
          exact congrArg (parts.1 :: ·) (ih parts.2 (by omega) m (by omega))
  exact hany steps text h text.length (Nat.le_refl _)

@[simp] theorem bodies_nil : bodies [] = [] := rfl

theorem bodies_cons (c : Char) (rest : List Char) :
    bodies (c :: rest) = match matchAt (c :: rest) with
      | some parts => parts.1 :: bodies parts.2
      | none => bodies rest := by
  rw [bodies, List.length_cons, bodiesFrom]
  cases hmatch : matchAt (c :: rest) with
  | none => exact bodiesFrom_enough (Nat.le_refl _)
  | some parts =>
    have hshort := matchAt_length hmatch
    rw [List.length_cons] at hshort
    have henough : bodiesFrom rest.length parts.2 = bodies parts.2 := bodiesFrom_enough (by omega)
    simp only [henough]

/-- Without a mark there is no body. -/
theorem bodies_unmarked {text : List Char} (h : breakMark text = none) : bodies text = [] := by
  induction text with
  | nil => rfl
  | cons c rest ih =>
    rw [breakMark] at h
    by_cases hmark : mark.isPrefixOf (c :: rest) = true
    · rw [if_pos hmark] at h; cases h
    · rw [if_neg hmark, Option.map_eq_none_iff] at h
      rw [bodies_cons, matchAt, if_neg hmark]
      exact ih h

/-! ## What an opening mark reads -/

theorem dropWord_append {word : List Char} (hword : ∀ letter ∈ word, sameLetter letter '\n' = false)
    (line tail : List Char) : dropWord word (line ++ '\n' :: tail) = (dropWord word line).map fun rest => rest ++ '\n' :: tail := by
  induction word generalizing line with
  | nil => simp [dropWord]
  | cons letter word ih =>
    have hletter := hword letter List.mem_cons_self
    cases line with
    | nil => simp [dropWord, hletter]
    | cons c line =>
      rw [List.cons_append, dropWord, dropWord, ih fun l hl => hword l (List.mem_cons_of_mem letter hl)]
      split <;> rfl

theorem languages_letters : ∀ name ∈ languages, ∀ letter ∈ name, sameLetter letter '\n' = false := by
  have hall : languages.all (fun name => name.all fun letter => !sameLetter letter '\n') = true := by decide
  simpa using hall

theorem takeWhile_to {back : List Char} (h : '\n' ∉ back) (front : List Char) :
    ((front ++ '\n' :: back).reverse.takeWhile (· ≠ '\n')).reverse = back := by
  rw [List.reverse_append, List.reverse_cons, List.append_assoc, List.takeWhile_append_of_pos, List.singleton_append,
    List.takeWhile_cons_of_neg, List.append_nil, List.reverse_reverse]
  · simp
  · intro c hc
    rw [decide_eq_true_iff]
    rintro rfl
    exact h (List.mem_reverse.mp hc)

/-- Blanks up to a line break are skipped, and with them lines of blanks. -/
theorem dropBlankLines_blank {blanks : List Char} (h : ∀ c ∈ blanks, isSpace c = true) (tail : List Char) :
    ∃ body, dropBlankLines (blanks ++ '\n' :: tail) = some body ∧
      (tail = body ∨ ∃ skipped, (∀ c ∈ skipped, isSpace c = true) ∧ tail = skipped ++ '\n' :: body) := by
  have hn : isSpace '\n' = true := by decide
  have htake : (blanks ++ '\n' :: tail).takeWhile isSpace = blanks ++ '\n' :: tail.takeWhile isSpace := by
    rw [List.takeWhile_append_of_pos h, List.takeWhile_cons_of_pos hn]
  have hdrop : (blanks ++ '\n' :: tail).dropWhile isSpace = tail.dropWhile isSpace := by
    rw [List.dropWhile_append_of_pos h, List.dropWhile_cons_of_pos hn]
  have hmem : '\n' ∈ blanks ++ '\n' :: tail.takeWhile isSpace := by simp
  simp only [dropBlankLines, htake, hdrop, if_pos hmem, Option.some.injEq, exists_eq_left']
  by_cases hinner : '\n' ∈ tail.takeWhile isSpace
  · obtain ⟨back, front, hsplit, hback⟩ := List.eq_append_cons_of_mem (List.mem_reverse.mpr hinner)
    have hblanks : tail.takeWhile isSpace = front.reverse ++ '\n' :: back.reverse := by
      rw [← List.reverse_reverse (tail.takeWhile isSpace), hsplit]
      simp
    have hrest : '\n' ∉ back.reverse := fun hm => hback (List.mem_reverse.mp hm)
    right
    refine ⟨front.reverse, fun c hc => ?_, ?_⟩
    · apply List.mem_takeWhile_imp (l := tail)
      rw [hblanks]
      exact List.mem_append_left _ hc
    · have hjoin : blanks ++ '\n' :: (front.reverse ++ '\n' :: back.reverse) =
          (blanks ++ '\n' :: front.reverse) ++ '\n' :: back.reverse := by simp
      rw [hblanks, hjoin, takeWhile_to hrest]
      have hparts := (List.takeWhile_append_dropWhile (p := isSpace) (l := tail)).symm
      rw [hblanks, List.append_assoc, List.cons_append] at hparts
      exact hparts
  · left
    rw [takeWhile_to hinner, List.takeWhile_append_dropWhile]

theorem dropBlankLines_other {line : List Char} (hline : '\n' ∉ line) (h : ¬ ∀ c ∈ line, isSpace c = true)
    (tail : List Char) : dropBlankLines (line ++ '\n' :: tail) = none := by
  have htake : (line ++ '\n' :: tail).takeWhile isSpace = line.takeWhile isSpace := by
    rw [List.takeWhile_append]
    have hshort : ¬ (line.takeWhile isSpace).length = line.length := by
      intro hlen
      apply h
      intro c hc
      rw [← (List.takeWhile_prefix isSpace).eq_of_length hlen] at hc
      exact List.mem_takeWhile_imp hc
    rw [if_neg hshort]
  rw [dropBlankLines, htake, if_neg fun hm => hline ((List.takeWhile_prefix isSpace).subset hm)]

theorem bodyAfter_none {rest : List Char} (hrest : '\n' ∉ rest) (h : onlyLanguage rest = false) (tail : List Char) :
    bodyAfter (rest ++ '\n' :: tail) = none := by
  rw [bodyAfter, List.findSome?_eq_none_iff]
  intro name hname
  rw [dropWord_append (languages_letters name hname)]
  cases hword : dropWord name rest with
  | none => rfl
  | some after =>
    have hafter : '\n' ∉ after := fun hm => hrest (dropWord_mem hword hm)
    have hother : ¬ ∀ c ∈ after, isSpace c = true := by
      intro hall
      apply List.any_eq_false.mp h name hname
      rw [hword, Option.any_some, List.all_eq_true]
      exact hall
    exact dropBlankLines_other hafter hother tail

/-- Behind nothing but the language of a shell the body begins on the next line that is not blank. -/
theorem bodyAfter_some {rest : List Char} (hrest : '\n' ∉ rest) (h : onlyLanguage rest = true) (tail : List Char) :
    ∃ body, bodyAfter (rest ++ '\n' :: tail) = some body ∧
      (tail = body ∨ ∃ skipped, (∀ c ∈ skipped, isSpace c = true) ∧ tail = skipped ++ '\n' :: body) := by
  cases hbody : bodyAfter (rest ++ '\n' :: tail) with
  | none =>
    exfalso
    obtain ⟨name, hname, hany⟩ := List.any_eq_true.mp h
    have hnone := List.findSome?_eq_none_iff.mp hbody name hname
    cases hword : dropWord name rest with
    | none => simp [hword] at hany
    | some after =>
      have hblank : ∀ c ∈ after, isSpace c = true := by simpa [hword] using hany
      obtain ⟨body, hsome, -⟩ := dropBlankLines_blank hblank tail
      rw [dropWord_append (languages_letters name hname), hword, Option.map_some, Option.bind_some, hsome] at hnone
      cases hnone
  | some body =>
    obtain ⟨name, hname, hsome⟩ := List.exists_of_findSome?_eq_some hbody
    rw [dropWord_append (languages_letters name hname)] at hsome
    cases hword : dropWord name rest with
    | none => rw [hword] at hsome; cases hsome
    | some after =>
      rw [hword, Option.map_some, Option.bind_some] at hsome
      have hafter : '\n' ∉ after := fun hm => hrest (dropWord_mem hword hm)
      by_cases hblank : ∀ c ∈ after, isSpace c = true
      · obtain ⟨found, hfound, hskip⟩ := dropBlankLines_blank hblank tail
        obtain rfl : found = body := Option.some.inj (hfound.symm.trans hsome)
        exact ⟨found, rfl, hskip⟩
      · rw [dropBlankLines_other hafter hblank] at hsome
        cases hsome

/-! ## The text read by lines -/

/-- What is read from where a body may begin: the commands up to the next mark, and those of
the text behind it. Without a mark there is nothing. -/
def readBody (text : List Char) : List String :=
  (breakMark text).elim [] fun parts => commandsOf parts.1 ++ verificationCommandsFromText parts.2

theorem breakMark_blank {blanks : List Char} (h : ∀ c ∈ blanks, isSpace c = true) (text : List Char) :
    breakMark (blanks ++ text) = (breakMark text).map fun parts => (blanks ++ parts.1, parts.2) := by
  induction blanks with
  | nil => simp
  | cons c blanks ih =>
    have hc : c ≠ '`' := by
      rintro rfl
      exact Bool.false_ne_true (h _ List.mem_cons_self)
    have hmark : mark.isPrefixOf (c :: (blanks ++ text)) = false := by simp [mark, List.isPrefixOf, Ne.symm hc]
    rw [List.cons_append, breakMark, hmark, if_neg Bool.false_ne_true, ih fun d hd => h d (List.mem_cons_of_mem c hd),
      Option.map_map]
    rfl

theorem breakMark_skip {skipped : List Char} (h : ∀ c ∈ skipped, isSpace c = true) (body : List Char) :
    breakMark (skipped ++ '\n' :: body) = (breakMark body).map fun parts => (skipped ++ '\n' :: parts.1, parts.2) := by
  have hall : ∀ c ∈ skipped ++ ['\n'], isSpace c = true := by
    intro c hc
    rcases List.mem_append.mp hc with hc | hc
    · exact h c hc
    · rw [List.mem_singleton.mp hc]
      decide
  have hbreak := breakMark_blank hall body
  simpa only [List.append_assoc, List.singleton_append] using hbreak

/-- Lines of blanks in front change nothing. -/
theorem readBody_skip {skipped : List Char} (h : ∀ c ∈ skipped, isSpace c = true) (body : List Char) :
    readBody (skipped ++ '\n' :: body) = readBody body := by
  rw [readBody, readBody, breakMark_skip h]
  cases breakMark body with
  | none => rfl
  | some parts =>
    simp only [Option.map_some, Option.elim_some, commandsOf_append, commandsOf_blank h, List.nil_append]

theorem readBody_unmarked {text : List Char} (h : breakMark text = none) : readBody text = [] := by
  rw [readBody, h]
  rfl

theorem commands_unmarked {text : List Char} (h : breakMark text = none) : verificationCommandsFromText text = [] := by
  rw [verificationCommandsFromText, bodies_unmarked h]
  rfl

theorem commands_cons (c : Char) (rest : List Char) :
    verificationCommandsFromText (c :: rest) = match matchAt (c :: rest) with
      | some parts => commandsOf parts.1 ++ verificationCommandsFromText parts.2
      | none => verificationCommandsFromText rest := by
  rw [verificationCommandsFromText, bodies_cons]
  cases matchAt (c :: rest) <;> rfl

/-- A line outside the bodies is passed over, or its last mark opens a body behind it. -/
theorem commands_line {line : List Char} (hline : '\n' ∉ line) (tail : List Char) :
    verificationCommandsFromText (line ++ '\n' :: tail) =
      if opens line = true then readBody tail else verificationCommandsFromText tail := by
  induction line with
  | nil => simp [commands_cons, matchAt, mark, List.isPrefixOf, opens]
  | cons c rest ih =>
    have hrest : '\n' ∉ rest := fun hm => hline (List.mem_cons_of_mem c hm)
    have hskip := ih hrest
    have hmatch : matchAt (c :: rest ++ '\n' :: tail) =
        if mark.isPrefixOf (c :: rest) = true then (bodyAfter (rest.drop 2 ++ '\n' :: tail)).bind breakMark else none := by
      rw [matchAt, mark_append]
      by_cases hmark : mark.isPrefixOf (c :: rest) = true
      · rw [if_pos hmark, if_pos hmark]
        have hlen := (List.isPrefixOf_iff_prefix.mp hmark).length_le
        simp only [mark, List.length_cons, List.length_nil] at hlen
        rw [List.cons_append, List.drop_succ_cons, List.drop_append_of_le_length (by omega)]
      · rw [if_neg hmark, if_neg hmark]
    have hbehind : '\n' ∉ rest.drop 2 := fun hm => hrest (List.mem_of_mem_drop hm)
    rw [List.cons_append] at hmatch ⊢
    rw [commands_cons, opens, hmatch]
    by_cases hmark : mark.isPrefixOf (c :: rest) = true
    · cases honly : onlyLanguage (rest.drop 2) with
      | false =>
        rw [if_pos hmark, bodyAfter_none hbehind honly]
        simpa [hmark, honly] using hskip
      | true =>
        obtain ⟨body, hbody, hwhere⟩ := bodyAfter_some hbehind honly tail
        have hread : readBody tail = readBody body := by
          rcases hwhere with rfl | ⟨skipped, hblank, rfl⟩
          · rfl
          · exact readBody_skip hblank body
        have hnone : breakMark body = none → breakMark tail = none := by
          intro h
          rcases hwhere with rfl | ⟨skipped, hblank, rfl⟩
          · exact h
          · rw [breakMark_skip hblank, h, Option.map_none]
        rw [if_pos hmark, hbody, Option.bind_some, hmark, Bool.true_and, Bool.true_or, if_pos rfl, hread]
        cases hbreak : breakMark body with
        | none =>
          have htail := hnone hbreak
          simp only [hskip, ← hread, readBody_unmarked htail, commands_unmarked htail, ite_self]
        | some parts => simp only [readBody, hbreak, Option.elim_some]
    · rw [if_neg hmark]
      simpa [hmark] using hskip

/-- The last line of a text opens nothing. -/
theorem commands_last {line : List Char} (hline : '\n' ∉ line) : verificationCommandsFromText line = [] := by
  induction line with
  | nil => rfl
  | cons c rest ih =>
    have hrest : '\n' ∉ rest := fun hm => hline (List.mem_cons_of_mem c hm)
    have hmatch : matchAt (c :: rest) = none := by
      rw [matchAt]
      split
      · rw [Option.bind_eq_none_iff]
        intro body hbody
        exfalso
        obtain ⟨name, -, hname⟩ := List.exists_of_findSome?_eq_some hbody
        obtain ⟨after, hafter, hblank⟩ := Option.bind_eq_some_iff.mp hname
        simp only [dropBlankLines, Option.ite_none_right_eq_some] at hblank
        have hmem := dropWord_mem hafter ((List.takeWhile_prefix isSpace).subset hblank.1)
        exact hline (List.mem_of_mem_drop hmem)
      · rfl
    rw [commands_cons, hmatch]
    exact ih hrest

/-- The text of some lines. -/
def joined (lines : List (List Char)) : List Char := ['\n'].intercalate lines

theorem joined_cons (line next : List Char) (rest : List (List Char)) :
    joined (line :: next :: rest) = line ++ '\n' :: joined (next :: rest) := by
  rw [joined, joined, List.intercalate_cons_cons]
  simp

theorem breakMark_joined {lines : List (List Char)} (h : ∀ line ∈ lines, '\n' ∉ line) (hne : lines ≠ []) :
    breakMark (joined lines) = none ↔ lines.any marked = false := by
  induction lines with
  | nil => exact absurd rfl hne
  | cons line rest ih =>
    cases rest with
    | nil =>
      rw [joined, List.intercalate_singleton, List.any_cons, List.any_nil, Bool.or_false, marked]
      cases breakMark line <;> simp
    | cons next rest =>
      have hnext := ih (fun l hl => h l (List.mem_cons_of_mem line hl)) (List.cons_ne_nil _ _)
      rw [joined_cons, breakMark_append (h line List.mem_cons_self), List.any_cons, Bool.or_eq_false_iff, ← hnext, marked]
      cases breakMark line <;> simp

theorem linesRead_true (line : List Char) (rest : List (List Char)) :
    linesRead true (line :: rest) = (if (line :: rest).any marked = true then commandsOf (unmarked line) else []) ++
      linesRead (reads true line) rest := by
  rw [linesRead]
  simp

/-- The commands of a text are those of the lines that are read. -/
theorem commands_joined (line : List Char) (rest : List (List Char)) (h : ∀ l ∈ line :: rest, '\n' ∉ l) :
    verificationCommandsFromText (joined (line :: rest)) = linesRead false (line :: rest) ∧
      readBody (joined (line :: rest)) = linesRead true (line :: rest) := by
  induction rest generalizing line with
  | nil =>
    have hline := h line List.mem_cons_self
    rw [joined, List.intercalate_singleton, commands_last hline]
    refine ⟨rfl, ?_⟩
    cases hbreak : breakMark line with
    | none => simp [readBody_unmarked hbreak, linesRead, marked, hbreak]
    | some parts =>
      have hafter : '\n' ∉ parts.2 := fun hm => hline (breakMark_mem hbreak (.inr hm))
      simp [readBody, hbreak, linesRead, marked, unmarked, commands_last hafter]
  | cons next rest ih =>
    have hline := h line List.mem_cons_self
    have hrest : ∀ l ∈ next :: rest, '\n' ∉ l := fun l hl => h l (List.mem_cons_of_mem line hl)
    obtain ⟨hidle, hread⟩ := ih next hrest
    have hopen : ∀ part : List Char, '\n' ∉ part →
        verificationCommandsFromText (part ++ '\n' :: joined (next :: rest)) = linesRead (opens part) (next :: rest) := by
      intro part hpart
      rw [commands_line hpart, hidle, hread]
      cases opens part <;> simp
    rw [joined_cons]
    constructor
    · rw [hopen line hline]
      rfl
    · cases hbreak : breakMark line with
      | some parts =>
        have hafter : '\n' ∉ parts.2 := fun hm => hline (breakMark_mem hbreak (.inr hm))
        rw [readBody, breakMark_append hline, hbreak]
        simp only [Option.elim_some, hopen _ hafter]
        rw [linesRead_true, List.any_cons, marked, hbreak, unmarked, hbreak, reads, if_pos rfl, hbreak]
        rfl
      | none =>
        have hlines : linesRead true (line :: next :: rest) =
            (if (next :: rest).any marked = true then commandsOf line else []) ++ linesRead true (next :: rest) := by
          rw [linesRead_true, List.any_cons, marked, hbreak, unmarked, hbreak, reads, if_pos rfl, hbreak]
          rfl
        rw [hlines, ← hread, readBody, readBody, breakMark_append hline, hbreak]
        cases htail : breakMark (joined (next :: rest)) with
        | none =>
          have hnone := (breakMark_joined hrest (List.cons_ne_nil _ _)).mp htail
          simp [hnone]
        | some parts =>
          have hany : (next :: rest).any marked = true := by
            rw [← Bool.not_eq_false, ← breakMark_joined hrest (List.cons_ne_nil _ _), htail]
            exact Option.some_ne_none parts
          rw [if_pos hany]
          simp [commandsOf_append]

/-! ## Which lines are read -/

/-- A command is read off a line behind which or in which there is a mark, if the lines in front
of it leave a body open. -/
theorem mem_linesRead {c : String} {reading : Bool} {lines : List (List Char)} :
    c ∈ linesRead reading lines ↔ ∃ before line after, lines = before ++ line :: after ∧
      before.foldl reads reading = true ∧ (line :: after).any marked = true ∧ c ∈ commandsOf (unmarked line) := by
  induction lines generalizing reading with
  | nil => simp [linesRead]
  | cons line rest ih =>
    rw [linesRead, List.mem_append, ih]
    constructor
    · rintro (h | ⟨before, found, after, rfl, h⟩)
      · split at h
        · rename_i hhere
          exact ⟨[], line, rest, rfl, hhere.1, hhere.2, h⟩
        · cases h
      · exact ⟨line :: before, found, after, rfl, h⟩
    · rintro ⟨before, found, after, hsplit, hreading, hmarked, hc⟩
      cases before with
      | nil =>
        obtain ⟨rfl, rfl⟩ := List.cons.inj hsplit
        left
        rw [if_pos ⟨hreading, hmarked⟩]
        exact hc
      | cons first before =>
        obtain ⟨rfl, rfl⟩ := List.cons.inj hsplit
        exact .inr ⟨before, found, after, rfl, hreading, hmarked, hc⟩

theorem mem_unique {l : List String} {c : String} :
    c ∈ l.foldl (fun commands d => if d ∈ commands then commands else commands ++ [d]) [] ↔ c ∈ l := by
  have hgen : ∀ acc : List String,
      c ∈ l.foldl (fun commands d => if d ∈ commands then commands else commands ++ [d]) acc ↔ c ∈ acc ∨ c ∈ l := by
    induction l with
    | nil => simp
    | cons d l ih =>
      intro acc
      rw [List.foldl_cons, ih]
      by_cases hd : d ∈ acc
      · rw [if_pos hd, List.mem_cons]
        constructor
        · rintro (h | h)
          · exact .inl h
          · exact .inr (.inr h)
        · rintro (h | rfl | h)
          · exact .inl h
          · exact .inl hd
          · exact .inr h
      · rw [if_neg hd, List.mem_append, List.mem_singleton, List.mem_cons, or_assoc]
  rw [hgen]
  simp

theorem commands_lines (text : List Char) :
    verificationCommandsFromText text = linesRead false (text.splitOn '\n') := by
  obtain ⟨line, rest, hlines⟩ := List.exists_cons_of_ne_nil (List.splitOn_ne_nil '\n' text)
  have hfree : ∀ l ∈ line :: rest, '\n' ∉ l := fun l hl => no_break (hlines ▸ hl)
  have hjoined := (commands_joined line rest hfree).1
  rw [← hlines, joined, List.intercalate_splitOn] at hjoined
  exact hjoined

/-! ## Texts with shell blocks only -/

/-- A mark alone on its line, with nothing but blanks in front. -/
def IsAlone (line : List Char) : Prop :=
  ∃ indent info, line = indent ++ (mark ++ info) ∧ (∀ c ∈ indent, isSpace c = true) ∧ '`' ∉ info

/-- A fence that opens a shell block, as the pattern wants it. -/
def IsShellMark (line : List Char) : Prop :=
  ∃ indent info, line = indent ++ (mark ++ info) ∧ (∀ c ∈ indent, isSpace c = true) ∧ '`' ∉ info ∧
    onlyLanguage info = true

/-- Every mark stands alone on its line, every block is a shell block, and every block is closed. -/
def TidyFrom : Option (List Char) → List (List Char) → Prop
  | opened, [] => opened = none
  | opened, line :: rest =>
    (marked line = true → IsAlone line ∧ (opened = none → IsShellMark line)) ∧
      TidyFrom (behind isFence opened line) rest

def Tidy (text : List Char) : Prop := TidyFrom none (text.splitOn '\n')

theorem breakMark_alone {indent info : List Char} (hindent : ∀ c ∈ indent, isSpace c = true) :
    breakMark (indent ++ (mark ++ info)) = some (indent, info) := by
  rw [breakMark_blank hindent]
  simp [mark, breakMark, List.isPrefixOf]

theorem opens_free {text : List Char} (h : '`' ∉ text) : opens text = false := by
  induction text with
  | nil => rfl
  | cons c rest ih =>
    have hc : c ≠ '`' := fun he => h (he ▸ List.mem_cons_self)
    have hmark : mark.isPrefixOf (c :: rest) = false := by simp [mark, List.isPrefixOf, Ne.symm hc]
    rw [opens, hmark, Bool.false_and, Bool.false_or, ih fun hm => h (List.mem_cons_of_mem c hm)]

theorem opens_alone {indent info : List Char} (hindent : ∀ c ∈ indent, isSpace c = true) (hinfo : '`' ∉ info) :
    opens (indent ++ (mark ++ info)) = onlyLanguage info := by
  induction indent with
  | nil =>
    have hfree := opens_free hinfo
    have hsecond : mark.isPrefixOf ('`' :: '`' :: info) = false := by
      cases info with
      | nil => rfl
      | cons d info =>
        have hd : d ≠ '`' := fun he => hinfo (he ▸ List.mem_cons_self)
        simp [mark, List.isPrefixOf, Ne.symm hd]
    have hthird : mark.isPrefixOf ('`' :: info) = false := by
      match info, hinfo with
      | [], _ => rfl
      | [_], _ => simp [mark, List.isPrefixOf]
      | d :: e :: info, hinfo =>
        have hd : d ≠ '`' := fun he => hinfo (he ▸ List.mem_cons_self)
        simp [mark, List.isPrefixOf, Ne.symm hd]
    have hfirst : mark.isPrefixOf ('`' :: '`' :: '`' :: info) = true := by simp [mark, List.isPrefixOf]
    rw [mark, List.nil_append]
    simp only [List.cons_append, List.nil_append, opens, hfirst, hsecond, hthird, hfree, Bool.true_and, Bool.false_and,
      Bool.or_false, List.drop_succ_cons, List.drop_zero]
  | cons c indent ih =>
    have hc : c ≠ '`' := by
      rintro rfl
      exact Bool.false_ne_true (hindent _ List.mem_cons_self)
    have hmark : mark.isPrefixOf (c :: (indent ++ (mark ++ info))) = false := by simp [mark, List.isPrefixOf, Ne.symm hc]
    rw [List.cons_append, opens, hmark, Bool.false_and, Bool.false_or, ih fun d hd => hindent d (List.mem_cons_of_mem c hd)]

/-- What is stripped off the end of an unindented line is blank. -/
theorem strip_split (line : List Char) : ∃ blanks, (∀ c ∈ blanks, isSpace c = true) ∧
    line.dropWhile isSpace = (strip (String.ofList line)).toList ++ blanks := by
  refine ⟨((line.dropWhile isSpace).reverse.takeWhile isSpace).reverse, ?_, ?_⟩
  · intro c hc
    exact List.mem_takeWhile_imp (List.mem_reverse.mp hc)
  · rw [strip, stripBy, String.toList_ofList, String.toList_ofList, ← List.reverse_append,
      List.takeWhile_append_dropWhile, List.reverse_reverse]

/-- A line is a fence if its unindented text begins with a mark. -/
theorem isFence_iff (line : List Char) : isFence line = mark.isPrefixOf (line.dropWhile isSpace) := by
  obtain ⟨blanks, hblanks, hsplit⟩ := strip_split line
  have hfence : isFence line = mark.isPrefixOf (strip (String.ofList line)).toList := rfl
  rw [hfence, Bool.eq_iff_iff, List.isPrefixOf_iff_prefix, List.isPrefixOf_iff_prefix, hsplit]
  constructor
  · exact fun h => h.trans (List.prefix_append _ _)
  · intro h
    rcases List.prefix_or_prefix_of_prefix h (List.prefix_append _ blanks) with hfront | hshort
    · exact hfront
    · obtain ⟨rest, hrest⟩ := hshort
      cases rest with
      | nil => rw [← hrest, List.append_nil]
      | cons c rest =>
        exfalso
        have hc : c = '`' := by
          have hmem : c ∈ mark := hrest ▸ List.mem_append_right _ List.mem_cons_self
          simpa [mark] using hmem
        rw [← hrest, List.prefix_append_right_inj] at h
        obtain ⟨more, hmore⟩ := h
        have hspace := hblanks c (hmore ▸ List.mem_append_left _ List.mem_cons_self)
        rw [hc] at hspace
        exact Bool.false_ne_true hspace

theorem dropWhile_indent {indent : List Char} (hindent : ∀ c ∈ indent, isSpace c = true) (info : List Char) :
    (indent ++ (mark ++ info)).dropWhile isSpace = mark ++ info := by
  rw [List.dropWhile_append_of_pos hindent]
  rfl

theorem IsAlone.isFence {line : List Char} (h : IsAlone line) : isFence line = true := by
  obtain ⟨indent, info, rfl, hindent, -⟩ := h
  rw [isFence_iff, dropWhile_indent hindent]
  simp [mark, List.isPrefixOf]

theorem marked_of_isFence {line : List Char} (h : isFence line = true) : marked line = true := by
  rw [isFence_iff] at h
  obtain ⟨info, hinfo⟩ := List.isPrefixOf_iff_prefix.mp h
  have hindent : ∀ c ∈ line.takeWhile isSpace, isSpace c = true := fun c hc => List.mem_takeWhile_imp hc
  rw [marked, ← List.takeWhile_append_dropWhile (p := isSpace) (l := line), ← hinfo, breakMark_alone hindent]
  rfl

theorem languages_lower : ∀ name ∈ languages, ∀ letter ∈ name, 97 ≤ letter.toNat ∧ letter.toNat ≤ 122 := by
  have hall : languages.all (fun name => name.all fun letter => decide (97 ≤ letter.toNat ∧ letter.toNat ≤ 122)) = true := by
    decide
  intro name hname letter hletter
  exact of_decide_eq_true (List.all_eq_true.mp (List.all_eq_true.mp hall name hname) letter hletter)

theorem sameLetter_blank {letter c : Char} (hletter : 97 ≤ letter.toNat ∧ letter.toNat ≤ 122) (hc : isSpace c = true) :
    sameLetter letter c = false := by
  have hlong : c ≠ 'ſ' := by
    rintro rfl
    revert hc
    decide
  have hrange : ¬ (97 ≤ c.toNat ∧ c.toNat ≤ 122) ∧ ¬ (65 ≤ c.toNat ∧ c.toNat ≤ 90) := by
    simp only [isSpace, Bool.or_eq_true, Bool.and_eq_true, decide_eq_true_eq] at hc
    omega
  have hlower : asciiLower c = c := by simp [asciiLower, hrange.2]
  have hne : c ≠ letter := by
    rintro rfl
    exact hrange.1 hletter
  simp [sameLetter, hlower, hne, hlong]

/-- Blanks in front of the language of a shell leave no other language. -/
theorem onlyLanguage_dropWhile {info : List Char} (h : onlyLanguage info = true) :
    onlyLanguage (info.dropWhile isSpace) = true := by
  cases info with
  | nil => exact h
  | cons c info =>
    by_cases hc : isSpace c = true
    · obtain ⟨name, hname, hrest⟩ := List.any_eq_true.mp h
      cases name with
      | nil =>
        rw [dropWord, Option.any_some, List.all_eq_true] at hrest
        rw [List.dropWhile_eq_nil_iff.mpr hrest]
        decide
      | cons letter name =>
        have hletter := sameLetter_blank (languages_lower _ hname letter List.mem_cons_self) hc
        rw [dropWord, hletter, if_neg Bool.false_ne_true] at hrest
        cases hrest
    · rw [List.dropWhile_cons_of_neg hc]
      exact h

theorem IsShellMark.isShellFence {line : List Char} (h : IsShellMark line) : isShellFence line = true := by
  obtain ⟨indent, info, rfl, hindent, hfree, honly⟩ := h
  have hdrop : (mark ++ info).dropWhile (· = '`') = info := by
    rw [List.dropWhile_append_of_pos (List.all_eq_true.mp (by decide : mark.all (· = '`') = true))]
    cases info with
    | nil => rfl
    | cons d info =>
      have hd : d ≠ '`' := fun he => hfree (he ▸ List.mem_cons_self)
      simp [hd]
  rw [FencedCommands.isShellFence, language, dropWhile_indent hindent, hdrop]
  exact onlyLanguage_dropWhile honly

theorem opens_unmarked {line : List Char} (h : breakMark line = none) : opens line = false := by
  induction line with
  | nil => rfl
  | cons c rest ih =>
    rw [breakMark] at h
    by_cases hmark : mark.isPrefixOf (c :: rest) = true
    · rw [if_pos hmark] at h; cases h
    · rw [if_neg hmark, Option.map_eq_none_iff] at h
      simp [opens, hmark, ih h]

theorem shellFrom_fence {line : List Char} (h : isFence line = true) (opened : Option (List Char)) (rest : List (List Char)) :
    shellFrom opened (line :: rest) = shellFrom (behind isFence opened line) rest := by
  rw [shellFrom, places, place_fence h, List.filterMap_cons]
  rfl

theorem shellFrom_outside {line : List Char} (h : isFence line = false) (rest : List (List Char)) :
    shellFrom none (line :: rest) = shellFrom none rest := by
  rw [shellFrom, places, place_outside h, behind_other h, List.filterMap_cons]
  rfl

theorem shellFrom_inside {line fence : List Char} (h : isFence line = false) (hfence : isShellFence fence = true)
    (rest : List (List Char)) : shellFrom (some fence) (line :: rest) = line :: shellFrom (some fence) rest := by
  rw [shellFrom, places, place_inside h, behind_other h, List.filterMap_cons]
  simp only [if_pos hfence]
  rfl

/-- What is read of tidy lines lies in their shell blocks, and behind them nothing is read. -/
theorem linesRead_tidy {c : String} {lines more : List (List Char)} {opened : Option (List Char)} (h : TidyFrom opened lines)
    (hopened : ∀ fence ∈ opened, isShellFence fence = true) (hc : c ∈ linesRead opened.isSome (lines ++ more)) :
    (∃ line ∈ shellFrom opened lines, c ∈ commandsOf line) ∨ c ∈ linesRead false more := by
  induction lines generalizing opened with
  | nil =>
    rw [h] at hc
    exact .inr hc
  | cons line rest ih =>
    obtain ⟨hmark, hrest⟩ := h
    rw [List.cons_append, linesRead, List.mem_append] at hc
    by_cases hm : marked line = true
    · obtain ⟨halone, hopens⟩ := hmark hm
      have hfence := halone.isFence
      obtain ⟨indent, info, hline, hindent, hfree⟩ := halone
      have hbreak : breakMark line = some (indent, info) := hline ▸ breakMark_alone hindent
      have hnothing : commandsOf (unmarked line) = [] := by
        rw [unmarked, hbreak]
        exact commandsOf_blank hindent
      rw [hnothing, ite_self] at hc
      rw [shellFrom_fence hfence]
      rw [behind_fence hfence] at hrest ⊢
      have hlater := hc.resolve_left List.not_mem_nil
      cases opened with
      | some fence =>
        rw [Option.isSome_some, if_pos rfl] at hrest ⊢
        apply ih hrest (by simp)
        simpa [reads, hbreak, opens_free hfree] using hlater
      | none =>
        have hshell := hopens rfl
        rw [Option.isSome_none, if_neg Bool.false_ne_true] at hrest ⊢
        apply ih hrest (by simpa using hshell.isShellFence)
        obtain ⟨indent, info, rfl, hindent, hfree, honly⟩ := hshell
        simpa [reads, opens_alone hindent hfree, honly] using hlater
    · have hother : isFence line = false := by
        rw [← Bool.not_eq_true]
        exact fun hf => hm (marked_of_isFence hf)
      have hnone : breakMark line = none := by
        rw [marked] at hm
        exact Option.not_isSome_iff_eq_none.mp hm
      rw [behind_other hother] at hrest
      cases opened with
      | none =>
        rw [shellFrom_outside hother]
        apply ih hrest hopened
        simpa [reads, opens_unmarked hnone] using hc
      | some fence =>
        rw [shellFrom_inside hother (hopened fence rfl)]
        rcases hc with hc | hc
        · split at hc
          · rw [unmarked, hnone] at hc
            exact .inl ⟨line, List.mem_cons_self, hc⟩
          · cases hc
        · have hlater := ih hrest hopened (by simpa [reads, hnone] using hc)
          exact hlater.imp_left fun ⟨l, hl, hcl⟩ => ⟨l, List.mem_cons_of_mem line hl, hcl⟩

theorem splitOn_texts {texts : List (List Char)} (h : texts ≠ []) :
    (['\n'].intercalate texts).splitOn '\n' = texts.flatMap (List.splitOn '\n') := by
  induction texts with
  | nil => exact absurd rfl h
  | cons text rest ih =>
    cases rest with
    | nil => simp [List.intercalate_singleton]
    | cons next rest =>
      rw [List.intercalate_cons_cons, List.append_assoc, List.singleton_append, List.splitOn_append_cons_self,
        ih (List.cons_ne_nil _ _)]
      rfl

theorem linesRead_texts {c : String} {texts : List (List Char)} (h : ∀ text ∈ texts, Tidy text)
    (hc : c ∈ linesRead false (texts.flatMap (List.splitOn '\n'))) :
    ∃ text ∈ texts, ∃ line ∈ shellLines text, c ∈ commandsOf line := by
  induction texts with
  | nil => cases hc
  | cons text rest ih =>
    rw [List.flatMap_cons] at hc
    rcases linesRead_tidy (h text List.mem_cons_self) (by simp) hc with hfound | hc
    · exact ⟨text, List.mem_cons_self, hfound⟩
    · obtain ⟨later, hlater, hfound⟩ := ih (fun t ht => h t (List.mem_cons_of_mem text ht)) hc
      exact ⟨later, List.mem_cons_of_mem text hlater, hfound⟩

/-- Texts whose marks stand alone on their lines, with shell blocks only, all of them closed. -/
theorem onlyShellLines_of_tidy {py : Python} {task : Dict} (h : ∀ text ∈ taskTexts py task, Tidy text) :
    OnlyShellLines py task := by
  intro c hc
  rw [verificationCommandsFromTaskText, mem_unique, commands_lines, taskText] at hc
  cases htexts : taskTexts py task with
  | nil =>
    rw [htexts] at hc
    cases hc
  | cons text rest =>
    rw [splitOn_texts (htexts ▸ List.cons_ne_nil _ _)] at hc
    rw [← htexts]
    exact linesRead_texts h hc

/-- A task with one block of commands. -/
def shellTask : Dict := [("description", .str "```bash\npytest -q\n```")]

theorem onlyShellLines_of_tidy_shellTask : OnlyShellLines AutoMerge.asciiRuntime.toPython shellTask := by
  refine onlyShellLines_of_tidy fun text htext => ?_
  have htexts : taskTexts AutoMerge.asciiRuntime.toPython shellTask = ["```bash\npytest -q\n```".toList] := by decide +kernel
  rw [htexts, List.mem_singleton] at htext
  have hsplit : text.splitOn '\n' = [mark ++ "bash".toList, "pytest -q".toList, mark] := by
    rw [htext]
    decide +kernel
  have hinside : marked "pytest -q".toList = true → IsAlone "pytest -q".toList ∧
      (some (mark ++ "bash".toList) = none → IsShellMark "pytest -q".toList) := fun h => absurd h (by decide +kernel)
  have hopen : behind isFence none (mark ++ "bash".toList) = some (mark ++ "bash".toList) := by decide +kernel
  have hstill : behind isFence (some (mark ++ "bash".toList)) "pytest -q".toList = some (mark ++ "bash".toList) := by decide +kernel
  have hclosed : behind isFence (some (mark ++ "bash".toList)) mark = none := by decide +kernel
  rw [Tidy, hsplit, TidyFrom, hopen, TidyFrom, hstill, TidyFrom, hclosed]
  refine ⟨fun _ => ⟨⟨[], "bash".toList, rfl, nofun, by decide⟩, fun _ => ⟨[], "bash".toList, rfl, nofun, by decide, by decide⟩⟩,
    hinside, fun _ => ⟨⟨[], [], rfl, nofun, nofun⟩, nofun⟩, rfl⟩

/-! ## The condition -/

/-- The commands of a task are lines of shell blocks exactly when every line that is read is one,
up to its first mark: a line behind marks that leave a body open, with a mark in it or behind it. -/
theorem onlyShellLines_iff (py : Python) (task : Dict) :
    OnlyShellLines py task ↔ ∀ before line after, (taskText py task).splitOn '\n' = before ++ line :: after →
      before.foldl reads false = true → (line :: after).any marked = true → ∀ c ∈ commandsOf (unmarked line),
        ∃ text ∈ taskTexts py task, ∃ shellLine ∈ shellLines text, c ∈ commandsOf shellLine := by
  simp only [OnlyShellLines, verificationCommandsFromTaskText, mem_unique, commands_lines, mem_linesRead]
  constructor
  · intro h before line after hsplit hreading hmarked c hc
    exact h c ⟨before, line, after, hsplit, hreading, hmarked, hc⟩
  · rintro h c ⟨before, line, after, hsplit, hreading, hmarked, hc⟩
    exact h before line after hsplit hreading hmarked c hc

/-- A task whose description has prose between a block of data and a block of commands. -/
def describedTask : Dict :=
  [("description", .str "```json\n\x7b\x7d\n```\nmake sure it works\n```bash\npytest -q\n```")]

/-- The closing mark of the block of data opens a body, and the prose is a command. -/
theorem prose_is_command : ¬ OnlyShellLines AutoMerge.asciiRuntime.toPython describedTask := by
  intro h
  have hmem : "make sure it works" ∈ verificationCommandsFromTaskText AutoMerge.asciiRuntime.toPython describedTask := by
    decide +kernel
  obtain ⟨text, htext, line, hline, hc⟩ := h _ hmem
  have hnot : "make sure it works" ∉
      ((taskTexts AutoMerge.asciiRuntime.toPython describedTask).flatMap shellLines).flatMap commandsOf := by
    decide +kernel
  exact hnot (List.mem_flatMap.mpr ⟨line, List.mem_flatMap.mpr ⟨text, htext, hline⟩, hc⟩)

end FencedCommands
