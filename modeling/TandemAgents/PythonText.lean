import Mathlib.Data.List.Basic
import Mathlib.Data.List.TakeWhile

/-!
# Python text operations

The `str` methods the program calls, on Lean strings. `lower` is not among them:
full Unicode lowercasing stays a parameter of whatever uses it.
-/
namespace PythonText

set_option maxRecDepth 20000

/-! Texts, paths and pairs are looked up by value. -/

instance lawfulBEq_chars : LawfulBEq (List Char) := inferInstance

instance lawfulBEq_names : LawfulBEq (List String) := inferInstance

instance lawfulBEq_pair : LawfulBEq (String × String) := inferInstance

/-- The code points `str.isspace` accepts, which are the ones `strip` removes. -/
def isSpace (c : Char) : Bool :=
  (9 ≤ c.toNat && c.toNat ≤ 13) || (28 ≤ c.toNat && c.toNat ≤ 32) || c.toNat = 0x85 ||
    c.toNat = 0xa0 || c.toNat = 0x1680 || (0x2000 ≤ c.toNat && c.toNat ≤ 0x200a) ||
    c.toNat = 0x2028 || c.toNat = 0x2029 || c.toNat = 0x202f || c.toNat = 0x205f || c.toNat = 0x3000

/-- Drop the characters a predicate accepts from both ends. -/
def stripBy (p : Char → Bool) (s : String) : String :=
  String.ofList ((s.toList.dropWhile p).reverse.dropWhile p).reverse

/-- `str(value or "").strip()`. -/
def strip (s : String) : String := stripBy isSpace s

/-- `text.lstrip("#")`. -/
def lstripHash (s : String) : String := String.ofList (s.toList.dropWhile (· = '#'))

/-- `text.replace(old, new)` for single characters. -/
def replaceChar (old new : Char) (s : String) : String :=
  String.ofList (s.toList.map (fun c => if c = old then new else c))

/-- `a or b` on strings. -/
def orElse (a b : String) : String := if a = "" then b else a

/-- `_nonempty(value) or None`. -/
def orNone (a : String) : Option String := if a = "" then none else some a

/-- `", ".join(parts)`. -/
def commaJoin (parts : List String) : String := String.intercalate ", " parts

def isAsciiAlnum (c : Char) : Bool :=
  (48 ≤ c.toNat && c.toNat ≤ 57) || (65 ≤ c.toNat && c.toNat ≤ 90) || (97 ≤ c.toNat && c.toNat ≤ 122)

def asciiLower (c : Char) : Char :=
  if 65 ≤ c.toNat && c.toNat ≤ 90 then Char.ofNat (c.toNat + 32) else c

theorem asciiLower_empty : String.ofList ("".toList.map asciiLower) = "" := rfl

/-- `re.sub(r"[^A-Za-z0-9]+", "-", value)`: the flag says that the previous
character belonged to a run already replaced. -/
def dashRuns : Bool → List Char → List Char
  | _, [] => []
  | inRun, c :: cs =>
    if isAsciiAlnum c then c :: dashRuns false cs
    else if inRun then dashRuns true cs
    else '-' :: dashRuns true cs

/-- `slugify`, with its default limit. After the substitution only ASCII letters,
digits and dashes are left, so `lower` is the ASCII one. -/
def slugify (value : String) : String :=
  let slug := String.ofList ((stripBy (· = '-') (String.ofList (dashRuns false value.toList))).toList.map asciiLower)
  orElse (stripBy (· = '-') (String.ofList ((orElse slug "task").toList.take 48))) "task"

theorem dropWhile_dropWhile (p : Char → Bool) (l : List Char) :
    (l.dropWhile p).dropWhile p = l.dropWhile p := by
  induction l with
  | nil => rfl
  | cons c cs ih =>
    by_cases h : p c
    · simpa [List.dropWhile_cons, h] using ih
    · simp [h]

theorem dropWhile_eq_self_of_append (p : Char → Bool) (a b : List Char)
    (h : (a ++ b).dropWhile p = a ++ b) (ha : a ≠ []) : a.dropWhile p = a := by
  cases a with
  | nil => exact absurd rfl ha
  | cons c cs =>
    by_cases hc : p c
    · exfalso
      have hlen : ((c :: cs ++ b).dropWhile p).length ≤ (cs ++ b).length := by
        simpa [hc] using (List.dropWhile_sublist p (l := cs ++ b)).length_le
      rw [h] at hlen
      simp only [List.cons_append, List.length_cons] at hlen
      omega
    · simp [hc]

/-- Stripping twice is stripping once. -/
theorem stripBy_idem (p : Char → Bool) (s : String) : stripBy p (stripBy p s) = stripBy p s := by
  generalize hl : s.toList.dropWhile p = l
  have hfix : l.dropWhile p = l := by rw [← hl]; exact dropWhile_dropWhile p _
  obtain ⟨t, ht⟩ : ∃ t, l.reverse = t ++ l.reverse.dropWhile p :=
    ⟨l.reverse.takeWhile p, (List.takeWhile_append_dropWhile).symm⟩
  have hsplit : (l.reverse.dropWhile p).reverse ++ t.reverse = l := by
    rw [← List.reverse_append, ← ht, List.reverse_reverse]
  have hleft : (l.reverse.dropWhile p).reverse.dropWhile p = (l.reverse.dropWhile p).reverse := by
    by_cases hnil : (l.reverse.dropWhile p).reverse = []
    · rw [hnil]; rfl
    · exact dropWhile_eq_self_of_append p _ t.reverse (by rw [hsplit, hfix]) hnil
  simp only [stripBy, String.toList_ofList, hl, hleft, List.reverse_reverse, dropWhile_dropWhile]

theorem stripBy_infix (p : Char → Bool) (s : String) : (stripBy p s).toList <:+: s.toList := by
  rw [stripBy, String.toList_ofList]
  have hback := (List.dropWhile_suffix p (l := (s.toList.dropWhile p).reverse)).reverse
  rw [List.reverse_reverse] at hback
  exact hback.isInfix.trans (List.dropWhile_suffix p).isInfix

theorem stripBy_eq_of_ends {p : Char → Bool} {s : String} (hhead : ∀ c ∈ s.toList.head?, p c = false)
    (hlast : ∀ c ∈ s.toList.getLast?, p c = false) : stripBy p s = s := by
  have hdrop : ∀ l : List Char, (∀ c ∈ l.head?, p c = false) → l.dropWhile p = l := by
    intro l hl
    cases l with
    | nil => rfl
    | cons c cs => rw [List.dropWhile_cons, hl c rfl, if_neg Bool.false_ne_true]
  rw [stripBy, hdrop _ hhead, hdrop _ ?_, List.reverse_reverse, String.ofList_toList]
  rwa [List.head?_reverse]

theorem stripBy_eq_self {p : Char → Bool} {s : String} (h : ∀ c ∈ s.toList, p c = false) : stripBy p s = s :=
  stripBy_eq_of_ends (fun c hc => h c (List.mem_of_head? hc)) fun c hc => h c (List.mem_of_getLast? hc)

/-- Nothing is left of a text only if every character goes. -/
theorem of_stripBy_eq_empty {p : Char → Bool} {s : String} (h : stripBy p s = "") : ∀ c ∈ s.toList, p c = true := by
  rw [← List.dropWhile_eq_nil_iff]
  cases hdrop : s.toList.dropWhile p with
  | nil => rfl
  | cons c rest =>
    have hlist := congrArg String.toList h
    have hempty : ("" : String).toList = [] := rfl
    rw [stripBy, hdrop, String.toList_ofList, hempty, List.reverse_eq_nil_iff, List.dropWhile_eq_nil_iff] at hlist
    have hhead : p c = false := by
      have hnot := List.head?_dropWhile_not p s.toList
      rw [hdrop] at hnot
      exact hnot
    have hgone := hlist c (List.mem_reverse.mpr List.mem_cons_self)
    rw [hhead] at hgone
    cases hgone

theorem strip_idem (s : String) : strip (strip s) = strip s := stripBy_idem isSpace s

/-- An identifier as the callers build it: stripped of surrounding whitespace. -/
structure Ident where
  text : String
  stripped : strip text = text

instance : DecidableEq Ident := fun a b =>
  decidable_of_iff (a.text = b.text) ⟨by cases a; cases b; rintro rfl; rfl, fun h => h ▸ rfl⟩

/-- `_nonempty(value)`, before the emptiness test. -/
def Ident.of (s : String) : Ident := ⟨strip s, strip_idem s⟩

example : slugify "  Fix: the `Parser`!  " = "fix-the-parser" := by decide
end PythonText
