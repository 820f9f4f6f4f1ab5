import TandemAgents.JsonText

/-!
# Reading JSON with a hook

`json.loads` with an `object_pairs_hook` that takes the fields of an object one after the
other and may refuse one. Without a hook a key that comes again replaces its value.
-/
namespace JsonHooks

open JsonData JsonText

set_option maxRecDepth 20000

section
variable (floats : Floats) (put : Dict → String → Json → Option Dict)

mutual

def valueBy : Nat → List Char → Option (Json × List Char)
  | 0, _ => none
  | _ + 1, [] => none
  | fuel + 1, c :: cs =>
    if c = '"' then (readString cs).map (fun r => (.str r.1, r.2))
    else if c = '{' then
      match expect '}' (skipBlanks cs) with
      | some rest => some (.obj [], rest)
      | none => (membersBy fuel [] (skipBlanks cs)).map (fun r => (.obj r.1, r.2))
    else if c = '[' then
      match expect ']' (skipBlanks cs) with
      | some rest => some (.arr [], rest)
      | none => (elementsBy fuel (skipBlanks cs)).map (fun r => (.arr r.1, r.2))
    else (readAtom floats ((c :: cs).takeWhile atomChar)).map (fun v => (v, (c :: cs).dropWhile atomChar))

/-- The fields up to the closing brace. -/
def membersBy : Nat → Dict → List Char → Option (Dict × List Char)
  | 0, _, _ => none
  | fuel + 1, d, cs => do
    let cs ← expect '"' cs
    let (key, cs) ← readString cs
    let cs ← expect ':' (skipBlanks cs)
    let (v, cs) ← valueBy fuel (skipBlanks cs)
    let d ← put d key v
    match expect '}' (skipBlanks cs) with
    | some rest => some (d, rest)
    | none =>
      let cs ← expect ',' (skipBlanks cs)
      membersBy fuel d (skipBlanks cs)

/-- The items up to the closing bracket. -/
def elementsBy : Nat → List Char → Option (List Json × List Char)
  | 0, _ => none
  | fuel + 1, cs => do
    let (v, cs) ← valueBy fuel cs
    match expect ']' (skipBlanks cs) with
    | some rest => some ([v], rest)
    | none =>
      let cs ← expect ',' (skipBlanks cs)
      (elementsBy fuel (skipBlanks cs)).map (fun r => (v :: r.1, r.2))

end

/-- `json.loads(text, object_pairs_hook=...)`; nothing where it raises. -/
def loadsBy (text : List Char) : Option Json :=
  match valueBy floats put (text.length + 1) (skipBlanks text) with
  | none => none
  | some (v, rest) => if skipBlanks rest = [] then some v else none

end

/-! ## Hooks -/

/-- No hook. -/
def replace (d : Dict) (key : String) (v : Json) : Option Dict := some (d.set key v)

/-- A hook that refuses a key that comes again. -/
def unique (d : Dict) (key : String) (v : Json) : Option Dict :=
  if d.contains key then none else some (d ++ [(key, v)])

/-- A hook that takes a new key as it comes. -/
def TakesNew (put : Dict → String → Json → Option Dict) : Prop :=
  ∀ d key v, key ∉ d.map Prod.fst → put d key v = some (d ++ [(key, v)])

theorem Dict.set_append {d : Dict} {key : String} (h : key ∉ d.map Prod.fst) (v : Json) :
    Dict.set d key v = d ++ [(key, v)] := by
  induction d with
  | nil => rfl
  | cons f d ih =>
    rw [List.map_cons, List.mem_cons, not_or] at h
    rw [Dict.set, if_neg (fun he => h.1 he.symm), ih h.2]
    rfl

theorem replace_takesNew : TakesNew replace := fun _ _ v h => congrArg some (Dict.set_append h v)

theorem contains_iff {d : Dict} {key : String} : d.contains key = true ↔ key ∈ d.map Prod.fst := by
  rw [Dict.contains, List.any_eq_true, List.mem_map]
  simp only [decide_eq_true_eq]

theorem unique_takesNew : TakesNew unique := by
  intro d key v h
  rw [unique, if_neg]
  rwa [contains_iff]

/-- Without a hook the reader is the plain one. -/
theorem valueBy_replace (floats : Floats) (fuel : Nat) :
    (∀ cs, valueBy floats replace fuel cs = value floats fuel cs) ∧
      (∀ d cs, membersBy floats replace fuel d cs = members floats fuel d cs) ∧
      ∀ cs, elementsBy floats replace fuel cs = elements floats fuel cs := by
  induction fuel with
  | zero => exact ⟨fun _ => rfl, fun _ _ => rfl, fun _ => rfl⟩
  | succ fuel ih =>
    obtain ⟨hvalue, hmembers, helements⟩ := ih
    refine ⟨fun cs => ?_, fun d cs => ?_, fun cs => ?_⟩
    · cases cs with
      | nil => rfl
      | cons c cs =>
        rw [valueBy, value, hmembers, helements] <;> rfl
    · rw [membersBy, members]
      simp only [hvalue, hmembers, replace, Option.bind_eq_bind, Option.bind_some] <;> rfl
    · rw [elementsBy, elements]
      simp only [hvalue, helements] <;> rfl

theorem loadsBy_replace (floats : Floats) (text : List Char) : loadsBy floats replace text = loads floats text := by
  rw [loadsBy, (valueBy_replace floats _).1]
  rfl

end JsonHooks
