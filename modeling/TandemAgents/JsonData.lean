import Mathlib.Data.List.Basic
import TandemAgents.PythonText

/-!
# Values read from JSON

The values `json.loads` builds and the operations the program performs on them: `get`,
`or`, `str` and `list`. How a container or a float is spelled and how a text is lowered
stays a parameter.
-/
namespace JsonData

open PythonText

set_option maxRecDepth 20000

inductive Json where
  | null
  | bool (b : Bool)
  | int (n : Int)
  | float (text : String)
  | str (s : String)
  | arr (items : List Json)
  | obj (fields : List (String × Json))

abbrev Dict := List (String × Json)

/-- `d.get(key)`; a key that is missing reads as `None`. -/
def Dict.get : Dict → String → Json
  | [], _ => .null
  | (k, v) :: fields, key => if k = key then v else Dict.get fields key

/-- `key in d`. -/
def Dict.contains (d : Dict) (key : String) : Bool := d.any (fun f => decide (f.1 = key))

/-- `d[key] = value`. -/
def Dict.set : Dict → String → Json → Dict
  | [], key, value => [(key, value)]
  | (k, v) :: fields, key, value => if k = key then (k, value) :: fields else (k, v) :: Dict.set fields key value

namespace Json

/-- `bool(value)`. -/
def truthy : Json → Bool
  | null => false
  | bool b => b
  | int n => decide (n ≠ 0)
  | float text => decide (text ≠ "0.0" ∧ text ≠ "-0.0")
  | str s => decide (s ≠ "")
  | arr items => !items.isEmpty
  | obj fields => !fields.isEmpty

/-- `a or b`. -/
def or (a b : Json) : Json := if a.truthy then a else b

/-- The value, if `isinstance(value, dict)`. -/
def asDict : Json → Option Dict
  | obj fields => some fields
  | _ => none

/-- The value, if `isinstance(value, list)`. -/
def asList : Json → Option (List Json)
  | arr items => some items
  | _ => none

/-- The value, if `isinstance(value, str)`. -/
def asStr : Json → Option String
  | str s => some s
  | _ => none

/-- The dictionaries in a list; nothing for any other value. -/
def dicts (v : Json) : List Dict := (v.asList.getD []).filterMap asDict

/-- `list(value or [])`, which a number cannot answer. -/
def toList (v : Json) : Option (List Json) :=
  if v.truthy then
    match v with
    | arr items => some items
    | obj fields => some (fields.map (fun f => str f.1))
    | str s => some (s.toList.map (fun c => str (String.singleton c)))
    | _ => none
  else some []

end Json

/-- What the program takes from the language: lowering a text, and spelling a list or a
dictionary. -/
structure Python where
  lower : String → String
  repr : Json → String
  lower_empty : lower "" = ""

namespace Python

variable (py : Python)

/-- `str(value)`. -/
def str : Json → String
  | .null => "None"
  | .bool true => "True"
  | .bool false => "False"
  | .int n => toString n
  | .float text => text
  | .str s => s
  | v => py.repr v

/-- `str(value or "")`. -/
def text (v : Json) : String := if v.truthy then py.str v else ""

end Python

/-! ## Fields -/

@[simp] theorem Dict.get_nil (key : String) : Dict.get [] key = .null := rfl

theorem Dict.get_cons (k : String) (v : Json) (d : Dict) (key : String) :
    Dict.get ((k, v) :: d) key = if k = key then v else Dict.get d key := rfl

/-- An assignment is read back under its key and nowhere else. -/
@[simp] theorem Dict.get_set (d : Dict) (key : String) (value : Json) (other : String) :
    (Dict.set d key value).get other = if key = other then value else d.get other := by
  induction d with
  | nil => rfl
  | cons f d ih =>
    obtain ⟨k, v⟩ := f
    rw [Dict.set]
    by_cases hk : k = key
    · subst hk
      rw [if_pos rfl, Dict.get_cons, Dict.get_cons]
      by_cases ho : k = other <;> simp [ho]
    · rw [if_neg hk, Dict.get_cons, Dict.get_cons, ih]
      by_cases ho : k = other
      · subst ho
        have hk' : ¬ key = k := fun h => hk h.symm
        simp [hk']
      · simp [ho]

theorem Dict.contains_set (d : Dict) (key : String) (value : Json) : (Dict.set d key value).contains key = true := by
  induction d with
  | nil => simp [Dict.set, Dict.contains]
  | cons f d ih =>
    obtain ⟨k, v⟩ := f
    rw [Dict.set]
    by_cases hk : k = key
    · simp [hk, Dict.contains]
    · rw [if_neg hk]
      unfold Dict.contains at ih ⊢
      rw [List.any_cons, ih, Bool.or_true]

@[simp] theorem Json.asDict_obj (d : Dict) : (Json.obj d).asDict = some d := rfl

theorem Json.or_of_truthy {a b : Json} (h : a.truthy = true) : a.or b = a := by
  rw [Json.or, if_pos h]

theorem Json.or_of_not {a b : Json} (h : a.truthy = false) : a.or b = b := by
  rw [Json.or, h, if_neg Bool.false_ne_true]

theorem Python.text_of_not (py : Python) {v : Json} (h : v.truthy = false) : py.text v = "" := by
  rw [Python.text, h, if_neg Bool.false_ne_true]

theorem Python.text_str (py : Python) (s : String) : py.text (.str s) = s := by
  rw [Python.text]
  split <;> simp_all [Json.truthy, Python.str]

theorem onlyWhole_int (n : Int) : (match Json.int n with
    | .int m => some m
    | _ => none) = some n := rfl

end JsonData
