import Mathlib.Data.List.Basic

/-!
# Base64

`base64.b64decode`. Strict decoding refuses what the lenient one passes over, and otherwise
they agree.
-/
namespace Base64

set_option maxRecDepth 20000

/-- `table_a2b_base64`. -/
def sextet (c : Char) : Option Nat :=
  if 'A' ≤ c ∧ c ≤ 'Z' then some (c.toNat - 65)
  else if 'a' ≤ c ∧ c ≤ 'z' then some (c.toNat - 71)
  else if '0' ≤ c ∧ c ≤ '9' then some (c.toNat + 4)
  else if c = '+' then some 62
  else if c = '/' then some 63
  else none

/-- The loop of `binascii.a2b_base64`: the place in a group of four, what is left of the last
character, the pads seen in the group and whether padding has started. -/
def scan (strict : Bool) : Nat → Nat → Nat → Bool → List Char → Option (List Nat)
  | quad, _, _, _, [] => if quad = 0 then some [] else none
  | quad, left, pads, padded, c :: cs =>
    if c = '=' then
      if strict ∧ quad = 0 then none
      else if 2 ≤ quad then
        if 4 ≤ quad + (pads + 1) then
          -- nothing behind the padding is read
          if strict ∧ cs ≠ [] then none else some []
        else scan strict quad left (pads + 1) true cs
      else scan strict quad left pads true cs
    else
      match sextet c with
      | none => if strict then none else scan strict quad left pads padded cs
      | some v =>
        if strict ∧ padded then none
        else
          match quad with
          | 0 => scan strict 1 v 0 padded cs
          | 1 => (scan strict 2 (v % 16) 0 padded cs).map ((left * 4 + v / 16) :: ·)
          | 2 => (scan strict 3 (v % 4) 0 padded cs).map ((left * 16 + v / 4) :: ·)
          | _ => (scan strict 0 0 0 padded cs).map ((left * 64 + v) :: ·)

/-- `binascii.a2b_base64`. -/
def a2bBase64 (strict : Bool) (s : List Char) : Option (List Nat) :=
  if strict ∧ s.head? = some '=' then none else scan strict 0 0 0 false s

/-- `s.translate(bytes.maketrans(b"-_", b"+/"))`. -/
def fromUrl (c : Char) : Char := if c = '-' then '+' else if c = '_' then '/' else c

/-- `base64.b64decode(s, altchars=b"-_", validate=strict)`; a text that is not ASCII is refused. -/
def b64decode (strict : Bool) (s : List Char) : Option (List Nat) :=
  if s.all (fun c => decide (c.toNat < 128)) then a2bBase64 strict (s.map fromUrl) else none

theorem scan_lenient {quad left pads : Nat} {padded : Bool} {s : List Char} {bytes : List Nat}
    (h : scan true quad left pads padded s = some bytes) : scan false quad left pads padded s = some bytes := by
  induction s generalizing quad left pads padded bytes with
  | nil =>
    rw [scan] at h ⊢
    exact h
  | cons c cs ih =>
    rw [scan] at h ⊢
    split at h
    · rename_i hpad
      rw [if_pos hpad, if_neg (by simp)]
      split at h
      · cases h
      · split at h
        · rename_i hquad
          rw [if_pos hquad]
          split at h
          · rename_i hdone
            rw [if_pos hdone, if_neg (by simp)]
            split at h
            · cases h
            · exact h
          · rename_i hmore
            rw [if_neg hmore]
            exact ih h
        · rename_i hquad
          rw [if_neg hquad]
          exact ih h
    · rename_i hdata
      rw [if_neg hdata]
      cases hsextet : sextet c with
      | none =>
        rw [hsextet] at h
        cases h
      | some v =>
        rw [hsextet] at h
        dsimp only at h ⊢
        rw [if_neg (by simp)]
        split at h
        · cases h
        · split at h
          · exact ih h
          all_goals
            obtain ⟨rest, hrest, rfl⟩ := Option.map_eq_some_iff.mp h
            rw [ih hrest]
            rfl

/-- What strict decoding accepts is decoded to the same bytes by the lenient one. -/
theorem b64decode_lenient {s : List Char} {bytes : List Nat} (h : b64decode true s = some bytes) :
    b64decode false s = some bytes := by
  unfold b64decode at h ⊢
  split at h
  · rename_i hascii
    rw [if_pos hascii]
    unfold a2bBase64 at h ⊢
    split at h
    · cases h
    · rw [if_neg (by simp)]
      exact scan_lenient h
  · cases h

example : b64decode true "TWE_-w==".toList = some [77, 97, 63, 251] := by decide +kernel

end Base64
