import Mathlib.Data.List.Basic

/-!
# Fenced blocks

The lines of a text with its fences paired in order: a fence opens a block where none is open,
and closes the open one otherwise.
-/
namespace Fences

set_option maxRecDepth 20000

variable {α : Type}

/-- Where a line stands: it is a fence, it lies in the block that a fence opened, or in none. -/
inductive Place (α : Type) where
  | fence
  | inside (opening : α)
  | outside
deriving DecidableEq

/-- The block that is open behind a line. -/
def behind (isFence : α → Bool) (opened : Option α) (line : α) : Option α :=
  if isFence line then (if opened.isSome then none else some line) else opened

/-- The place of a line before which a block may be open. -/
def place (isFence : α → Bool) (opened : Option α) (line : α) : Place α :=
  if isFence line then .fence else opened.elim .outside .inside

/-- The lines with their places. -/
def places (isFence : α → Bool) : Option α → List α → List (α × Place α)
  | _, [] => []
  | opened, line :: rest => (line, place isFence opened line) :: places isFence (behind isFence opened line) rest

variable {isFence : α → Bool}

@[simp] theorem behind_fence {line : α} (h : isFence line = true) (opened : Option α) :
    behind isFence opened line = if opened.isSome then none else some line := if_pos h

@[simp] theorem behind_other {line : α} (h : isFence line = false) (opened : Option α) :
    behind isFence opened line = opened := by simp [behind, h]

@[simp] theorem place_fence {line : α} (h : isFence line = true) (opened : Option α) :
    place isFence opened line = .fence := if_pos h

@[simp] theorem place_inside {line : α} (h : isFence line = false) (opening : α) :
    place isFence (some opening) line = .inside opening := by simp [place, h]

@[simp] theorem place_outside {line : α} (h : isFence line = false) :
    place isFence none line = .outside := by simp [place, h]

end Fences
