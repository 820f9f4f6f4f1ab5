import Mathlib.Data.List.Basic

/-!
# Lines of a text

A text as the lines between its line breaks, and back.
-/
namespace TextLines

set_option maxRecDepth 20000

def lines (text : List Char) : List (List Char) := text.splitOn '\n'

/-- The text of some lines. -/
def joined (texts : List (List Char)) : List Char := ['\n'].intercalate texts

theorem lines_append (a b : List Char) : lines (a ++ '\n' :: b) = lines a ++ lines b := List.splitOn_append_cons_self a b

theorem lines_single {line : List Char} (h : '\n' ∉ line) : lines line = [line] := List.splitOn_eq_singleton h

theorem lines_cons (line b : List Char) (h : '\n' ∉ line) : lines (line ++ '\n' :: b) = line :: lines b := by
  rw [lines_append, lines_single h]
  rfl

theorem lines_ne_nil (text : List Char) : lines text ≠ [] := List.splitOn_ne_nil '\n' text

theorem joined_lines (text : List Char) : joined (lines text) = text := List.intercalate_splitOn '\n'

theorem lines_inj {a b : List Char} : lines a = lines b ↔ a = b := by
  constructor
  · intro h
    rw [← joined_lines a, h, joined_lines]
  · exact congrArg lines

theorem lines_newline (text : List Char) : lines ('\n' :: text) = [] :: lines text := lines_append [] text

theorem length_lines (text : List Char) : (lines text).length = text.count '\n' + 1 := by
  induction text with
  | nil => rfl
  | cons c rest ih =>
    by_cases hc : c = '\n'
    · subst hc
      rw [lines_newline, List.length_cons, ih, List.count_cons_self]
    · rw [List.count_cons_of_ne hc, ← ih, lines, lines, List.splitOn_cons_eq_if_modifyHead, if_neg (by simpa using hc),
        List.length_modifyHead]

theorem mem_splitOnP {p : Char → Bool} {text piece : List Char} (h : piece ∈ text.splitOnP p) {c : Char}
    (hc : c ∈ piece) : c ∈ text ∧ p c = false := by
  induction text generalizing piece with
  | nil =>
    rw [List.splitOnP_nil, List.mem_singleton] at h
    rw [h] at hc
    cases hc
  | cons d text ih =>
    obtain ⟨first, later, hsplit⟩ := List.exists_cons_of_ne_nil (List.splitOnP_ne_nil p text)
    rw [List.splitOnP_cons_eq_if_modifyHead, hsplit] at h
    rw [hsplit] at ih
    by_cases hd : p d = true
    · rw [if_pos hd] at h
      rcases List.mem_cons.mp h with rfl | h
      · cases hc
      · exact (ih h hc).imp_left (List.mem_cons_of_mem d)
    · rw [if_neg hd, List.modifyHead_cons] at h
      rcases List.mem_cons.mp h with rfl | h
      · rcases List.mem_cons.mp hc with rfl | hc
        · exact ⟨List.mem_cons_self, Bool.not_eq_true _ ▸ hd⟩
        · exact (ih List.mem_cons_self hc).imp_left (List.mem_cons_of_mem d)
      · exact (ih (List.mem_cons_of_mem first h) hc).imp_left (List.mem_cons_of_mem d)

theorem mem_lines {text line : List Char} (h : line ∈ lines text) {c : Char} (hc : c ∈ line) : c ∈ text ∧ c ≠ '\n' := by
  rw [lines, List.splitOn_eq_splitOnP] at h
  obtain ⟨hmem, hne⟩ := mem_splitOnP h hc
  exact ⟨hmem, by simpa using hne⟩

theorem no_newline {text line : List Char} (h : line ∈ lines text) : '\n' ∉ line := fun hc => (mem_lines h hc).2 rfl

/-- What follows the last line break is on the last line. -/
theorem lines_last (u : List Char) {v : List Char} (hv : '\n' ∉ v) : ∃ front w, lines (u ++ v) = front ++ [w ++ v] := by
  induction u with
  | nil => exact ⟨[], [], by rw [List.nil_append, lines_single hv]; rfl⟩
  | cons c u ih =>
    obtain ⟨front, w, hlines⟩ := ih
    rw [lines] at hlines
    rw [List.cons_append, lines, List.splitOn_cons_eq_if_modifyHead, hlines]
    by_cases hc : c = '\n'
    · exact ⟨[] :: front, w, by simp [hc]⟩
    · cases front with
      | nil => exact ⟨[], c :: w, by simp [hc]⟩
      | cons first front => exact ⟨(c :: first) :: front, w, by simp [hc]⟩

theorem lines_joined {texts : List (List Char)} (h : ∀ line ∈ texts, '\n' ∉ line) (hne : texts ≠ []) :
    lines (joined texts) = texts := List.splitOn_intercalate '\n' h hne

theorem joined_single (line : List Char) : joined [line] = line := List.intercalate_singleton

theorem joined_cons (line : List Char) {rest : List (List Char)} (h : rest ≠ []) :
    joined (line :: rest) = line ++ '\n' :: joined rest := by
  obtain ⟨next, more, rfl⟩ := List.exists_cons_of_ne_nil h
  rw [joined, List.intercalate_cons_cons, List.append_assoc]
  rfl

theorem joined_append {front back : List (List Char)} (hf : front ≠ []) (hb : back ≠ []) :
    joined (front ++ back) = joined front ++ '\n' :: joined back := by
  induction front with
  | nil => exact absurd rfl hf
  | cons line front ih =>
    cases front with
    | nil =>
      rw [joined_single]
      exact joined_cons line hb
    | cons next front =>
      rw [List.cons_append, @joined_cons line (next :: front ++ back) (by simp), @joined_cons line (next :: front) (by simp),
        ih (List.cons_ne_nil _ _), List.append_assoc]
      rfl

theorem lines_char {c : Char} (h : c ≠ '\n') (rest : List Char) : ∃ line more, lines (c :: rest) = (c :: line) :: more := by
  obtain ⟨line, more, hsplit⟩ := List.exists_cons_of_ne_nil (List.splitOn_ne_nil '\n' rest)
  refine ⟨line, more, ?_⟩
  rw [lines, List.splitOn_cons_eq_if_modifyHead, hsplit, if_neg (by simpa using h), List.modifyHead_cons]

theorem head_lines {text : List Char} : (lines text).head? = some [] ↔ text = [] ∨ text.head? = some '\n' := by
  cases text with
  | nil => simp [lines]
  | cons c rest =>
    obtain ⟨first, later, hsplit⟩ := List.exists_cons_of_ne_nil (List.splitOn_ne_nil '\n' rest)
    rw [lines, List.splitOn_cons_eq_if_modifyHead, hsplit]
    by_cases hc : c = '\n' <;> simp [hc]

end TextLines
