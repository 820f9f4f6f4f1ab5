import Mathlib.Data.List.Infix

/-!
# Pure POSIX paths

What `pathlib.PurePosixPath` reads off the text of a path. The file system is not consulted:
a path is its root and the names below it, and it keeps apart the roots `/` and `//`, which
the system takes for the same directory.
-/
namespace PurePath

set_option maxRecDepth 20000

inductive Root where
  | relative | slash | doubleSlash
  deriving DecidableEq, Repr

structure PurePosixPath where
  root : Root
  tail : List (List Char)
  deriving DecidableEq, Repr

/-- The names of a path, with the empty ones and the dots left out. -/
def components (text : List Char) : List (List Char) :=
  (text.splitOn '/').filter (fun name => decide (name ≠ [] ∧ name ≠ ['.']))

/-- `PurePosixPath(text)`: exactly two slashes at the start are a root of their own. -/
def purePosixPath (text : String) : PurePosixPath where
  root :=
    match (text.toList.takeWhile (· = '/')).length with
    | 0 => .relative
    | 2 => .doubleSlash
    | _ => .slash
  tail := components text.toList

def Root.text : Root → List Char
  | .relative => []
  | .slash => ['/']
  | .doubleSlash => ['/', '/']

namespace PurePosixPath

/-- `str(path)`. -/
def str (p : PurePosixPath) : List Char :=
  match p.root, p.tail with
  | .relative, [] => ['.']
  | root, tail => root.text ++ ['/'].intercalate tail

/-- `path.is_absolute()`. -/
def isAbsolute (p : PurePosixPath) : Bool := decide (p.root ≠ .relative)

/-- `path.parent`. -/
def parent (p : PurePosixPath) : PurePosixPath := ⟨p.root, p.tail.dropLast⟩

/-- `path.parents`. -/
def parents (p : PurePosixPath) : List PurePosixPath := p.tail.inits.dropLast.map (fun names => ⟨p.root, names⟩)

/-- `p == q or p in q.parents or q in p.parents`. -/
def overlaps (p q : PurePosixPath) : Bool := decide (p = q) || decide (p ∈ q.parents) || decide (q ∈ p.parents)

end PurePosixPath

/-- The checks of a list of paths, each against those behind it. -/
def pairwiseApart : List PurePosixPath → Bool
  | [] => true
  | p :: ps => ps.all (fun q => !p.overlaps q) && pairwiseApart ps

/-- What stands in a joined text stands in the separator or in one of the pieces. -/
theorem mem_intercalate {α : Type} {sep : List α} {ls : List (List α)} {x : α} (h : x ∈ sep.intercalate ls) :
    x ∈ sep ∨ ∃ l ∈ ls, x ∈ l := by
  induction ls with
  | nil => cases h
  | cons l ls ih =>
    cases ls with
    | nil => exact .inr ⟨l, List.mem_singleton_self l, by simpa using h⟩
    | cons m ls =>
      rw [List.intercalate_cons_cons, List.mem_append, List.mem_append] at h
      rcases h with (hl | hsep) | hrest
      · exact .inr ⟨l, List.mem_cons_self, hl⟩
      · exact .inl hsep
      · exact (ih hrest).imp_right fun ⟨k, hk, hx⟩ => ⟨k, List.mem_cons_of_mem l hk, hx⟩

/-- A joined text ends in its last piece. -/
theorem intercalate_snoc {α : Type} (sep : List α) (ls : List (List α)) (last : List α) :
    ∃ front, sep.intercalate (ls ++ [last]) = front ++ last := by
  induction ls with
  | nil => exact ⟨[], by simp⟩
  | cons l ls ih =>
    obtain ⟨front, hfront⟩ := ih
    obtain ⟨m, ms, hms⟩ := List.exists_cons_of_ne_nil (List.append_ne_nil_of_right_ne_nil ls (List.cons_ne_nil last []))
    refine ⟨l ++ sep ++ front, ?_⟩
    rw [hms] at hfront
    rw [List.cons_append, hms, List.intercalate_cons_cons, hfront]
    simp only [List.append_assoc]

theorem intercalate_append {α : Type} (sep : List α) {front back : List (List α)} (hf : front ≠ []) (hb : back ≠ []) :
    sep.intercalate (front ++ back) = sep.intercalate front ++ (sep ++ sep.intercalate back) := by
  induction front with
  | nil => exact absurd rfl hf
  | cons l front ih =>
    cases front with
    | nil =>
      obtain ⟨b, bs, rfl⟩ := List.exists_cons_of_ne_nil hb
      simp [List.intercalate_cons_cons]
    | cons m front =>
      rw [List.cons_append, List.cons_append, List.intercalate_cons_cons, List.intercalate_cons_cons, ← List.cons_append,
        ih (List.cons_ne_nil _ _), List.append_assoc, List.append_assoc, List.append_assoc]

/-! ## Containment -/

/-- One of two places lies in the other, or they are the same. -/
def Nested {α : Type} (a b : List α) : Prop := a <+: b ∨ b <+: a

instance {α : Type} [DecidableEq α] (a b : List α) : Decidable (Nested a b) := inferInstanceAs (Decidable (_ ∨ _))

theorem Nested.symm {α : Type} {a b : List α} (h : Nested a b) : Nested b a := Or.symm h

theorem dropLast_inits {α : Type} (a : α) (l : List α) :
    (a :: l).inits.dropLast = [] :: l.inits.dropLast.map (fun names => a :: names) := by
  have hne : l.inits.map (fun names => a :: names) ≠ [] := by
    intro h
    have hlength := congrArg List.length h
    simp at hlength
  rw [List.inits_cons, List.dropLast_cons_of_ne_nil hne, List.map_dropLast]

/-- What precedes the whole list among its beginnings are its proper beginnings. -/
theorem mem_dropLast_inits {α : Type} {l s : List α} : s ∈ l.inits.dropLast ↔ s <+: l ∧ s ≠ l := by
  induction l generalizing s with
  | nil => simp
  | cons a l ih =>
    rw [dropLast_inits, List.mem_cons, List.mem_map]
    cases s with
    | nil => simp
    | cons b s =>
      simp only [reduceCtorEq, List.cons.injEq, false_or, ih, List.cons_prefix_cons, ne_eq]
      constructor
      · rintro ⟨t, ⟨hpre, hne⟩, rfl, rfl⟩
        exact ⟨⟨rfl, hpre⟩, fun h => hne h.2⟩
      · rintro ⟨⟨rfl, hpre⟩, hne⟩
        exact ⟨s, ⟨hpre, fun h => hne ⟨rfl, h⟩⟩, rfl, rfl⟩

namespace PurePosixPath

theorem mem_parents {p q : PurePosixPath} : q ∈ p.parents ↔ q.root = p.root ∧ q.tail <+: p.tail ∧ q.tail ≠ p.tail := by
  obtain ⟨root, tail⟩ := q
  simp only [parents, List.mem_map, mem_dropLast_inits, PurePosixPath.mk.injEq]
  constructor
  · rintro ⟨names, hnames, rfl, rfl⟩
    exact ⟨rfl, hnames⟩
  · rintro ⟨rfl, hnames⟩
    exact ⟨tail, hnames, rfl, rfl⟩

/-- Paths overlap where they have one root and nested names. -/
theorem overlaps_iff {p q : PurePosixPath} : p.overlaps q = true ↔ p.root = q.root ∧ Nested p.tail q.tail := by
  simp only [overlaps, Bool.or_eq_true, decide_eq_true_eq, mem_parents, Nested]
  constructor
  · rintro ((rfl | ⟨hroot, hpre, -⟩) | ⟨hroot, hpre, -⟩)
    · exact ⟨rfl, .inl (List.prefix_refl _)⟩
    · exact ⟨hroot, .inl hpre⟩
    · exact ⟨hroot.symm, .inr hpre⟩
  · rintro ⟨hroot, hnested⟩
    by_cases htail : p.tail = q.tail
    · obtain ⟨root, tail⟩ := p
      obtain ⟨root', tail'⟩ := q
      subst hroot htail
      exact .inl (.inl rfl)
    · obtain hpre | hpre := hnested
      · exact .inl (.inr ⟨hroot, hpre, htail⟩)
      · exact .inr ⟨hroot.symm, hpre, fun h => htail h.symm⟩

theorem overlaps_comm (p q : PurePosixPath) : p.overlaps q = q.overlaps p := by
  rw [Bool.eq_iff_iff, overlaps_iff, overlaps_iff]
  exact ⟨fun h => ⟨h.1.symm, h.2.symm⟩, fun h => ⟨h.1.symm, h.2.symm⟩⟩

end PurePosixPath

theorem pairwiseApart_iff {ps : List PurePosixPath} :
    pairwiseApart ps = true ↔ ps.Pairwise (fun p q => p.overlaps q = false) := by
  induction ps with
  | nil => simp [pairwiseApart]
  | cons p ps ih => simp [pairwiseApart, ih]

/-! ## Texts -/

example : (purePosixPath "//srv/./data/").str = "//srv/data".toList := by decide

end PurePath
