import Mathlib.Algebra.Ring.Nat
import Mathlib.Data.List.Basic

/-!
# Cutting a stream into pieces

A stream is cut into pieces of one size, the last of which may be shorter, and is read
back in slices of any sizes. The two cuts have nothing to do with each other.
-/
namespace Pieces

set_option maxRecDepth 20000

variable {α : Type}

/-- No piece is empty, and all but the last have the full size. -/
inductive Cut (n : Nat) : List (List α) → Prop where
  | last {c : List α} (hpos : 0 < c.length) (hle : c.length ≤ n) : Cut n [c]
  | cons {c : List α} {cs : List (List α)} (hfull : c.length = n) (h : Cut n cs) : Cut n (c :: cs)

theorem Cut.ne_nil {n : Nat} {cs : List (List α)} (h : Cut n cs) : cs ≠ [] := by
  cases h <;> simp

theorem Cut.head {n : Nat} {c : List α} {cs : List (List α)} (h : Cut n (c :: cs)) (hn : 0 < n) :
    0 < c.length ∧ c.length ≤ n ∧ (cs ≠ [] → c.length = n) := by
  cases h with
  | last hpos hle => exact ⟨hpos, hle, fun hne => absurd rfl hne⟩
  | cons hfull h => exact ⟨by omega, by omega, fun _ => hfull⟩

theorem Cut.tail {n : Nat} {c : List α} {cs : List (List α)} (h : Cut n (c :: cs)) : cs = [] ∨ Cut n cs := by
  cases h with
  | last hpos hle => exact .inl rfl
  | cons hfull h => exact .inr h

/-- Behind pieces of the full size anything may follow that is cut itself. -/
theorem Cut.append {n : Nat} {front cs : List (List α)} (hfront : ∀ c ∈ front, c.length = n) (h : Cut n cs) :
    Cut n (front ++ cs) := by
  induction front with
  | nil => exact h
  | cons c front ih =>
    refine .cons (hfront c List.mem_cons_self) (ih fun d hd => hfront d (List.mem_cons_of_mem c hd))

/-- Pieces that all have the full size. -/
theorem Cut.of_full {n : Nat} (hn : 0 < n) {cs : List (List α)} (hne : cs ≠ []) (hfull : ∀ c ∈ cs, c.length = n) :
    Cut n cs := by
  have hsplit := List.dropLast_append_getLast hne
  have hlast : (cs.getLast hne).length = n := hfull _ (List.getLast_mem hne)
  rw [← hsplit]
  exact .append (fun c hc => hfull c (List.dropLast_subset _ hc)) (.last (by omega) (by omega))

theorem length_flatten_full {n : Nat} {cs : List (List α)} (hfull : ∀ c ∈ cs, c.length = n) :
    cs.flatten.length = cs.length * n := by
  induction cs with
  | nil => simp
  | cons c cs ih =>
    have hc := hfull c List.mem_cons_self
    have hcs := ih fun d hd => hfull d (List.mem_cons_of_mem c hd)
    rw [List.flatten_cons, List.length_append, hc, hcs, List.length_cons, Nat.succ_mul, Nat.add_comm]

/-! ## The cut of a stream -/

/-- A stream in pieces; each round takes one, so its length is rounds enough. -/
def cutInto (n : Nat) : Nat → List α → List (List α)
  | 0, _ => []
  | rounds + 1, data => if data.isEmpty then [] else data.take n :: cutInto n rounds (data.drop n)

/-- The pieces of a stream. -/
def chunks (n : Nat) (data : List α) : List (List α) := cutInto n data.length data

theorem cutInto_flatten {n : Nat} (hn : 0 < n) {cs : List (List α)} (h : Cut n cs) (rounds : Nat)
    (hrounds : cs.flatten.length ≤ rounds) : cutInto n rounds cs.flatten = cs := by
  induction h generalizing rounds with
  | @last c hpos hle =>
    rw [List.flatten_singleton] at hrounds ⊢
    obtain ⟨more, rfl⟩ : ∃ more, rounds = more + 1 := ⟨rounds - 1, by omega⟩
    have hempty : c.isEmpty = false := by
      rw [List.isEmpty_eq_false_iff]
      exact List.length_pos_iff.mp hpos
    have hrest : cutInto n more ([] : List α) = [] := by cases more <;> rfl
    rw [cutInto, hempty, if_neg Bool.false_ne_true, List.take_of_length_le hle, List.drop_of_length_le hle, hrest]
  | @cons c cs hfull _ ih =>
    rw [List.flatten_cons, List.length_append] at hrounds
    obtain ⟨more, rfl⟩ : ∃ more, rounds = more + 1 := ⟨rounds - 1, by omega⟩
    have hempty : (c ++ cs.flatten).isEmpty = false := by
      rw [List.isEmpty_eq_false_iff]
      refine List.length_pos_iff.mp ?_
      rw [List.length_append]
      omega
    rw [List.flatten_cons, cutInto, hempty, if_neg Bool.false_ne_true, List.take_left' hfull, List.drop_left' hfull,
      ih more (by omega)]

/-- A cut is the one there is. -/
theorem Cut.eq_chunks {n : Nat} (hn : 0 < n) {cs : List (List α)} (h : Cut n cs) : chunks n cs.flatten = cs :=
  cutInto_flatten hn h _ (Nat.le_refl _)

/-! ## Slices -/

/-- The stream in slices of the sizes asked for; behind its end they are empty. -/
def slices : List α → List Nat → List (List α)
  | _, [] => []
  | data, n :: ns => data.take n :: slices (data.drop n) ns

@[simp] theorem length_slices (data : List α) (ns : List Nat) : (slices data ns).length = ns.length := by
  induction ns generalizing data with
  | nil => rfl
  | cons n ns ih => simp [slices, ih]

/-- Slices put together are what was asked for in all. -/
theorem flatten_slices (data : List α) (ns : List Nat) : (slices data ns).flatten = data.take ns.sum := by
  induction ns generalizing data with
  | nil => simp [slices]
  | cons n ns ih => rw [slices, List.flatten_cons, ih, List.sum_cons, List.take_add]

theorem take_slices (data : List α) (ns : List Nat) (k : Nat) :
    (slices data ns).take k = slices data (ns.take k) := by
  induction ns generalizing data k with
  | nil => simp [slices]
  | cons n ns ih =>
    cases k with
    | zero => rfl
    | succ k => simp [slices, ih]

theorem getElem?_slices (data : List α) (ns : List Nat) (k : Nat) :
    (slices data ns)[k]? = ns[k]?.map (fun n => (data.drop (ns.take k).sum).take n) := by
  induction ns generalizing data k with
  | nil => simp [slices]
  | cons n ns ih =>
    cases k with
    | zero => simp [slices]
    | succ k => simp [slices, ih, List.drop_drop]

/-- Before the first empty slice that was asked to hold something stands the whole stream. -/
theorem flatten_before_empty {data : List α} {ns : List Nat} {k n : Nat} (hn : ns[k]? = some n) (hpos : 0 < n)
    (hempty : (slices data ns)[k]? = some []) : ((slices data ns).take k).flatten = data := by
  rw [getElem?_slices, hn, Option.map_some, Option.some.injEq, List.take_eq_nil_iff] at hempty
  have hdrop : data.drop (ns.take k).sum = [] := hempty.resolve_left (by omega)
  rw [take_slices, flatten_slices]
  exact List.take_of_length_le (List.drop_eq_nil_iff.mp hdrop)

end Pieces
