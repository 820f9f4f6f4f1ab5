import TandemAgents.AutoMerge
import TandemAgents.RepairRetries
import TandemAgents.ShellWords

/-!
# Commands of a manager plan

The tests of a plan are filtered by what they begin with and by a list of parts they may not hold,
and what is left is run by a shell, which reads more in a text than its beginning.
-/
namespace PlanCommands

open PythonText JsonData ShellWords
open RepairRetries (contains)

set_option maxRecDepth 20000

section
variable (py : Python)

/-- The text of an entry of `tests`. -/
def commandText : Json → String
  | .obj fields => strip (py.text (Dict.get fields "command"))
  | entry => strip (py.text entry)

def safePrefixes : List String :=
  ["ls ", "cat ", "grep ", "test ", "find ", "wc ", "head ", "tail ", "sed ", "git diff", "cargo check ", "cargo test ",
    "cargo fmt ", "cargo clippy "]

def unsafeTokens : List String :=
  ["npm start", "npm run", "curl http://", "curl https://", "localhost:", "serve ", "&"]

/-- The checks of `extract_command_checks` on one command. -/
def passes (command : String) : Bool :=
  let lower := py.lower command
  decide (command ≠ "") && !(contains "manual" lower || contains "visual" lower || contains "browser check" lower) &&
    !(unsafeTokens.any fun token => contains token lower) &&
    safePrefixes.any fun start => start.toList.isPrefixOf lower.toList

/-- `extract_command_checks`; nothing where it raises. -/
def extractCommandChecks (managerPlan : Dict) : Option (List String) :=
  (Dict.get managerPlan "tests").toList.map fun entries => (entries.map (commandText py)).filter (passes py)

end

/-- The command of `_run_engine_command_checks`. -/
def shellCommand (repo command : List Char) : List Char :=
  'c' :: 'd' :: ' ' :: (quote repo ++ (' ' :: '&' :: '&' :: ' ' :: command))

/-! ## Single checks -/

/-- What the safe prefixes stand for. -/
def programs : List (List (List Char)) :=
  [["ls".toList], ["cat".toList], ["grep".toList], ["test".toList], ["find".toList], ["wc".toList], ["head".toList],
    ["tail".toList], ["sed".toList], ["git".toList, "diff".toList], ["cargo".toList, "check".toList],
    ["cargo".toList, "test".toList], ["cargo".toList, "fmt".toList], ["cargo".toList, "clippy".toList]]

def Allowed (words : List (List Char)) : Prop := ∃ program ∈ programs, program <+: words

/-- Run in a repository, a command changes the directory and is then the one command of some words. -/
def Single (repo command : List Char) (words : List (List Char)) : Prop :=
  let change : List Token := [.word ['c', 'd'], .word repo, .operator '&', .operator '&']
  tokens (shellCommand repo command) = change ++ words.map Token.word ∨
    tokens (shellCommand repo command) = change ++ (words.map Token.word ++ [.operator ';'])

/-- A command is one command of an allowed program and modifies no files. -/
def ReadOnlyCheck (modifies : List (List Char) → Prop) (repo command : List Char) : Prop :=
  ∃ words, Single repo command words ∧ Allowed words ∧ ¬modifies words

/-- The words of a command text. -/
def shellWords (text : List Char) : List (List Char) :=
  (tokens text).filterMap fun
    | .word w => some w
    | _ => none

/-- A text of words and quotes, with an allowed program in front and no modifying one. -/
def Harmless (modifies : List (List Char) → Prop) (text : List Char) : Prop :=
  (Quiet start text ∨ LastSemicolon start text) ∧ Allowed (shellWords text) ∧ ¬modifies (shellWords text)

/-- Behind the change of the directory the shell reads a command as it stands, whatever the path. -/
theorem tokens_shellCommand (repo command : List Char) : tokens (shellCommand repo command) =
    [.word ['c', 'd'], .word repo, .operator '&', .operator '&'] ++ tokens command := by
  obtain ⟨hemitted, hafter⟩ := reads_quote repo
  have hfront : shellCommand repo command = ['c', 'd', ' '] ++ (quote repo ++ ([' ', '&', '&', ' '] ++ command)) := rfl
  have hchange : emitted start ['c', 'd', ' '] = [.word ['c', 'd']] := by decide
  have hstart : after start ['c', 'd', ' '] = start := by decide
  rw [tokens, hfront, lex_append, hchange, hstart, lex_append, hemitted, hafter, lex_append]
  rfl

theorem filterMap_words (words : List (List Char)) (tail : List Token) :
    ((words.map Token.word ++ tail).filterMap fun
      | .word w => some w
      | _ => none) = words ++ tail.filterMap fun
        | .word w => some w
        | _ => none := by
  rw [List.filterMap_append, List.filterMap_map]
  congr 1
  exact List.filterMap_some

theorem single_words {repo command : List Char} {words : List (List Char)} (h : Single repo command words) :
    Words start command words ∧ words = shellWords command := by
  rw [Single, tokens_shellCommand] at h
  rcases h with h | h
  · have htokens := List.append_cancel_left h
    refine ⟨.inl htokens, ?_⟩
    have hwords := filterMap_words words []
    rw [List.append_nil] at hwords
    rw [shellWords, htokens, hwords]
    simp
  · have htokens := List.append_cancel_left h
    refine ⟨.inr htokens, ?_⟩
    rw [shellWords, htokens, filterMap_words]
    simp

theorem single_of_words {command : List Char} {words : List (List Char)} (h : Words start command words) (repo : List Char) :
    Single repo command words := by
  rw [Single, tokens_shellCommand]
  rcases h with h | h
  · exact .inl (congrArg _ h)
  · exact .inr (congrArg _ h)

/-- A command is a single check exactly when its text is harmless. -/
theorem readOnlyCheck_iff (modifies : List (List Char) → Prop) (repo command : List Char) :
    ReadOnlyCheck modifies repo command ↔ Harmless modifies command := by
  rw [Harmless, ← words_iff]
  constructor
  · rintro ⟨words, hsingle, hallowed, hmodifies⟩
    obtain ⟨hwords, rfl⟩ := single_words hsingle
    exact ⟨⟨_, hwords⟩, hallowed, hmodifies⟩
  · rintro ⟨⟨words, hwords⟩, hallowed, hmodifies⟩
    have hsingle := single_of_words hwords repo
    obtain ⟨-, rfl⟩ := single_words hsingle
    exact ⟨_, hsingle, hallowed, hmodifies⟩

/-- Every command of a plan is a single check, in every repository, exactly when the entries that pass
the filter are harmless. -/
theorem checks_single_iff (py : Python) (modifies : List (List Char) → Prop) (managerPlan : Dict) :
    (∀ checks, extractCommandChecks py managerPlan = some checks →
      ∀ command ∈ checks, ∀ repo, ReadOnlyCheck modifies repo command.toList) ↔
    ∀ entries, (Dict.get managerPlan "tests").toList = some entries → ∀ entry ∈ entries,
      passes py (commandText py entry) = true → Harmless modifies (commandText py entry).toList := by
  rw [extractCommandChecks]
  cases (Dict.get managerPlan "tests").toList with
  | none => simp
  | some entries =>
    simp only [Option.map_some, Option.some.injEq, forall_eq', readOnlyCheck_iff, forall_const]
    constructor
    · intro h entry hentry hpasses
      exact h _ (List.mem_filter.mpr ⟨List.mem_map_of_mem hentry, hpasses⟩)
    · intro h command hcommand
      obtain ⟨hmem, hpasses⟩ := List.mem_filter.mp hcommand
      obtain ⟨entry, hentry, rfl⟩ := List.mem_map.mp hmem
      exact h entry hentry hpasses

/-! ## Commands that pass -/

/-- `find` with a deleting or running option, and `sed` in place. -/
def writes (words : List (List Char)) : Bool :=
  match words with
  | program :: options =>
    (decide (program = "find".toList) && options.any fun o => decide (o ∈ ["-delete".toList, "-exec".toList, "-execdir".toList])) ||
      (decide (program = "sed".toList) && options.any fun o => decide (o ∈ ["-i".toList, "--in-place".toList]))
  | [] => false

def samplePlan : Dict :=
  [("tests", .arr [.str "cat README.md; rm -rf target", .obj [("command", .str "find . -name old -delete")]])]

/-- A second command behind a semicolon is returned, and a deleting `find` too. -/
theorem second_command_returned :
    extractCommandChecks AutoMerge.asciiRuntime.toPython samplePlan =
        some ["cat README.md; rm -rf target", "find . -name old -delete"] ∧
      tokens (shellCommand "/srv/app".toList "cat README.md; rm -rf target".toList) =
        [.word "cd".toList, .word "/srv/app".toList, .operator '&', .operator '&', .word "cat".toList, .word "README.md".toList,
          .operator ';', .word "rm".toList, .word "-rf".toList, .word "target".toList] ∧
      ¬ReadOnlyCheck (fun words => writes words = true) "/srv/app".toList "cat README.md; rm -rf target".toList ∧
      ¬ReadOnlyCheck (fun words => writes words = true) "/srv/app".toList "find . -name old -delete".toList := by
  refine ⟨by decide +kernel, by decide +kernel, ?_, ?_⟩
  · rintro ⟨words, hsingle, -, -⟩
    have htokens : tokens "cat README.md; rm -rf target".toList =
        ["cat".toList, "README.md".toList].map Token.word ++
          .operator ';' :: [.word "rm".toList, .word "-rf".toList, .word "target".toList] := by decide +kernel
    have hwords := (single_words hsingle).1
    rw [Words, ← tokens, htokens] at hwords
    have hlater := ((words_other (by simp) _).mp ((words_front _ _).mp ⟨words, hwords⟩)).2
    cases hlater
  · rintro ⟨words, hsingle, -, hmodifies⟩
    rw [(single_words hsingle).2] at hmodifies
    exact hmodifies (by decide +kernel)

end PlanCommands
