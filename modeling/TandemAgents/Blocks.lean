import Mathlib.Data.List.Basic
import Mathlib.Data.List.Infix
import Mathlib.Data.List.TakeWhile

/-!
# Blocks that begin with a head

A list is cut where a head stands: what comes before the first head, and one block for each. A
scan that decides at each head whether to keep what follows keeps whole blocks.
-/
namespace Blocks

set_option maxRecDepth 20000

variable {α : Type}

section
variable (isHead : α → Bool)

/-- What comes before the first head. -/
def front (xs : List α) : List α := xs.takeWhile fun x => !isHead x

/-- The blocks, each a head with what follows it. -/
def cut : List α → List (List α)
  | [] => []
  | x :: xs => if isHead x then (x :: front isHead xs) :: cut xs else cut xs

def IsBlock (b : List α) : Prop := ∃ x rest, b = x :: rest ∧ isHead x = true ∧ ∀ y ∈ rest, isHead y = false

/-- The scan: the flag says whether the block it stands in is kept. -/
def select (keep : α → Bool) : Bool → List α → List α
  | _, [] => []
  | inside, x :: xs =>
    if isHead x then (if keep x then x :: select keep true xs else select keep false xs)
    else if inside then x :: select keep true xs else select keep false xs

/-- The last block goes on with what is added. -/
def addLast (more : List α) : List (List α) → List (List α)
  | [] => []
  | [b] => [b ++ more]
  | b :: bs => b :: addLast more bs

end

section
variable {isHead : α → Bool} {xs ys : List α} {x : α}

theorem front_cons_head (hx : isHead x = true) (xs : List α) : front isHead (x :: xs) = [] := by
  rw [front, List.takeWhile_cons_of_neg (by simp [hx])]

theorem front_cons_other (hx : isHead x = false) (xs : List α) : front isHead (x :: xs) = x :: front isHead xs := by
  rw [front, List.takeWhile_cons_of_pos (by simp [hx])]
  rfl

theorem mem_front (h : x ∈ front isHead xs) : isHead x = false := by
  simpa using List.mem_takeWhile_imp h

/-- Nothing gets lost in cutting. -/
theorem front_append_cut (xs : List α) : front isHead xs ++ (cut isHead xs).flatten = xs := by
  induction xs with
  | nil => rfl
  | cons x xs ih =>
    cases hx : isHead x with
    | true => rw [front_cons_head hx, cut, if_pos hx, List.flatten_cons, List.cons_append, ih, List.nil_append]
    | false =>
      rw [front_cons_other hx, cut, if_neg (by simp [hx]), List.cons_append, ih]

theorem isBlock_of_cut (xs : List α) : ∀ b ∈ cut isHead xs, IsBlock isHead b := by
  induction xs with
  | nil => exact List.forall_mem_nil _
  | cons x xs ih =>
    rw [cut]
    split
    · rename_i hx
      intro b hb
      rcases List.mem_cons.mp hb with rfl | hb
      · exact ⟨x, front isHead xs, rfl, hx, fun y hy => mem_front hy⟩
      · exact ih b hb
    · exact ih

theorem front_append_of_mem (h : ∃ x ∈ xs, isHead x = true) (ys : List α) : front isHead (xs ++ ys) = front isHead xs := by
  induction xs with
  | nil =>
    obtain ⟨x, hx, -⟩ := h
    cases hx
  | cons x xs ih =>
    rw [List.cons_append]
    cases hx : isHead x with
    | true => rw [front_cons_head hx, front_cons_head hx]
    | false =>
      rw [front_cons_other hx, front_cons_other hx, ih]
      obtain ⟨y, hy, hhead⟩ := h
      rcases List.mem_cons.mp hy with rfl | hy
      · rw [hx] at hhead
        cases hhead
      · exact ⟨y, hy, hhead⟩

theorem front_append_of_none (h : ∀ x ∈ xs, isHead x = false) (ys : List α) :
    front isHead (xs ++ ys) = xs ++ front isHead ys := by
  induction xs with
  | nil => rfl
  | cons x xs ih =>
    rw [List.cons_append, front_cons_other (h x List.mem_cons_self), ih fun y hy => h y (List.mem_cons_of_mem x hy),
      List.cons_append]

theorem cut_of_none (h : ∀ x ∈ xs, isHead x = false) : cut isHead xs = [] := by
  induction xs with
  | nil => rfl
  | cons x xs ih =>
    rw [cut, if_neg (by simp [h x List.mem_cons_self])]
    exact ih fun y hy => h y (List.mem_cons_of_mem x hy)

theorem cut_eq_nil_iff : cut isHead xs = [] ↔ ∀ x ∈ xs, isHead x = false := by
  refine ⟨fun h x hx => ?_, cut_of_none⟩
  have hfront := @front_append_cut _ isHead xs
  rw [h, List.flatten_nil, List.append_nil] at hfront
  rw [← hfront] at hx
  exact mem_front hx

/-- A list behind another one goes on with its last block up to the first head. -/
theorem cut_append (xs ys : List α) : cut isHead (xs ++ ys) = addLast (front isHead ys) (cut isHead xs) ++ cut isHead ys := by
  induction xs with
  | nil => rfl
  | cons x xs ih =>
    rw [List.cons_append, cut, cut]
    cases hx : isHead x with
    | false => rw [if_neg Bool.false_ne_true, if_neg Bool.false_ne_true, ih]
    | true =>
      rw [if_pos rfl, if_pos rfl, ih]
      by_cases hmore : ∃ y ∈ xs, isHead y = true
      · have hne : cut isHead xs ≠ [] := by
          intro hnil
          obtain ⟨y, hy, hhead⟩ := hmore
          rw [cut_eq_nil_iff.mp hnil y hy] at hhead
          cases hhead
        obtain ⟨b, bs, hb⟩ := List.exists_cons_of_ne_nil hne
        rw [front_append_of_mem hmore, hb]
        rfl
      · have hnone : ∀ y ∈ xs, isHead y = false := by
          intro y hy
          by_contra hhead
          exact hmore ⟨y, hy, by simpa using hhead⟩
        have hfront : front isHead xs = xs := by
          have hall := front_append_of_none hnone []
          have hnil : front isHead ([] : List α) = [] := rfl
          rwa [List.append_nil, hnil, List.append_nil] at hall
        rw [front_append_of_none hnone, cut_of_none hnone, hfront]
        rfl

/-- Blocks are cut back into themselves. -/
theorem cut_flatten {bs : List (List α)} (h : ∀ b ∈ bs, IsBlock isHead b) : cut isHead bs.flatten = bs := by
  induction bs with
  | nil => rfl
  | cons b bs ih =>
    have hrest := ih fun c hc => h c (List.mem_cons_of_mem b hc)
    obtain ⟨x, rest, rfl, hx, hnone⟩ := h b List.mem_cons_self
    have hfront : front isHead bs.flatten = [] := by
      cases bs with
      | nil => rfl
      | cons c cs =>
        obtain ⟨y, more, rfl, hy, -⟩ := h c (List.mem_cons_of_mem _ List.mem_cons_self)
        exact front_cons_head hy _
    rw [List.flatten_cons, List.cons_append, cut, if_pos hx, front_append_of_none hnone, hfront, List.append_nil,
      cut_append, cut_of_none hnone, hrest]
    rfl

/-! ## The scan -/

variable {keep : α → Bool}

/-- Inside a block that is kept the scan goes on to the next head. -/
theorem select_eq (keep : α → Bool) (inside : Bool) (xs : List α) : select isHead keep inside xs =
    (if inside then front isHead xs else []) ++ ((cut isHead xs).filter fun b => b.head?.any keep).flatten := by
  induction xs generalizing inside with
  | nil => cases inside <;> rfl
  | cons x xs ih =>
    cases hx : isHead x with
    | true =>
      rw [select, if_pos hx, front_cons_head hx, cut, if_pos hx, ite_self, List.nil_append]
      cases hkeep : keep x with
      | true =>
        rw [if_pos rfl, ih, List.filter_cons_of_pos (by simp [hkeep]), if_pos rfl]
        rfl
      | false =>
        rw [if_neg Bool.false_ne_true, ih, List.filter_cons_of_neg (by simp [hkeep])]
        rfl
    | false =>
      have hother : ¬ isHead x = true := by simp [hx]
      rw [select, if_neg hother, front_cons_other hx, cut, if_neg hother]
      cases inside with
      | true =>
        rw [if_pos rfl, ih, if_pos rfl, if_pos rfl]
        rfl
      | false =>
        rw [if_neg Bool.false_ne_true, ih]
        rfl

/-- Scanning once more changes nothing. -/
theorem select_select (keep : α → Bool) (xs : List α) :
    select isHead keep false (select isHead keep false xs) = select isHead keep false xs := by
  have hall : ∀ xs : List α, select isHead keep false xs = ((cut isHead xs).filter fun b => b.head?.any keep).flatten :=
    fun xs => select_eq keep false xs
  rw [hall xs, hall, cut_flatten, List.filter_filter]
  · simp only [Bool.and_self]
  · intro b hb
    exact isBlock_of_cut xs b (List.mem_of_mem_filter hb)

/-! ## What is kept -/

/-- A block with what is added to it, and whether it should be kept. -/
structure Entry (α : Type) where
  wanted : Bool
  own : List α
  added : List α

/-- What is kept is what is wanted exactly if this is so of every block, and nothing is added to one that is
wanted. -/
theorem kept_eq_wanted_iff {keeps : List α → Bool} {es : List (Entry α)} (hkeeps : ∀ e ∈ es, keeps (e.own ++ e.added) = keeps e.own) :
    ((es.map fun e => e.own ++ e.added).filter keeps) = (es.filter Entry.wanted).map Entry.own ↔
      ∀ e ∈ es, keeps e.own = e.wanted ∧ (e.wanted = true → e.added = []) := by
  have hfilter : ((es.map fun e => e.own ++ e.added).filter keeps) =
      (es.filter fun e => keeps e.own).map fun e => e.own ++ e.added := by
    rw [List.filter_map]
    congr 1
    exact List.filter_congr fun e he => hkeeps e he
  rw [hfilter]
  constructor
  · intro h
    have hwanted : ∀ e ∈ es, e.wanted = true → keeps e.own = true := by
      intro e he hw
      have hmem : e.own ∈ (es.filter Entry.wanted).map Entry.own := List.mem_map_of_mem (List.mem_filter.mpr ⟨he, hw⟩)
      rw [← h] at hmem
      obtain ⟨d, hd, hsame⟩ := List.mem_map.mp hmem
      obtain ⟨hd, hkeep⟩ := List.mem_filter.mp hd
      rw [← hsame, hkeeps d hd]
      exact hkeep
    have hsub : (es.filter Entry.wanted).Sublist (es.filter fun e => keeps e.own) := by
      have hboth : es.filter Entry.wanted = (es.filter fun e => keeps e.own).filter Entry.wanted := by
        rw [List.filter_filter]
        apply List.filter_congr
        intro e he
        cases hw : e.wanted with
        | true => rw [hwanted e he hw, Bool.and_self]
        | false => rw [Bool.false_and]
      rw [hboth]
      exact List.filter_sublist
    have hsame : es.filter Entry.wanted = es.filter fun e => keeps e.own := by
      apply hsub.eq_of_length
      have hlen := congrArg List.length h
      rw [List.length_map, List.length_map] at hlen
      exact hlen.symm
    intro e he
    have hiff : keeps e.own = e.wanted := by
      cases hw : e.wanted with
      | true => exact hwanted e he hw
      | false =>
        by_contra hkeep
        have hmem : e ∈ es.filter fun e => keeps e.own := List.mem_filter.mpr ⟨he, by simpa using hkeep⟩
        rw [← hsame] at hmem
        have hw' := (List.mem_filter.mp hmem).2
        rw [hw] at hw'
        cases hw'
    refine ⟨hiff, fun hw => ?_⟩
    rw [hsame] at h
    have hmem : e ∈ es.filter fun e => keeps e.own := List.mem_filter.mpr ⟨he, hwanted e he hw⟩
    have heq := List.map_inj_left.mp h e hmem
    simpa using heq
  · intro h
    have hsame : (es.filter fun e => keeps e.own) = es.filter Entry.wanted :=
      List.filter_congr fun e he => (h e he).1
    rw [hsame]
    apply List.map_congr_left
    intro e he
    obtain ⟨he, hw⟩ := List.mem_filter.mp he
    rw [(h e he).2 hw, List.append_nil]

/-- What is added goes to the last of the blocks. -/
def addToLast (more : List α) : List (Entry α) → List (Entry α)
  | [] => []
  | [e] => [{ e with added := more }]
  | e :: es => e :: addToLast more es

theorem addToLast_blocks (more : List α) {es : List (Entry α)} (h : ∀ e ∈ es, e.added = []) :
    ((addToLast more es).map fun e => e.own ++ e.added) = addLast more (es.map Entry.own) := by
  induction es with
  | nil => rfl
  | cons e es ih =>
    cases es with
    | nil => rfl
    | cons d es =>
      rw [addToLast, List.map_cons, h e List.mem_cons_self, List.append_nil, ih fun d hd => h d (List.mem_cons_of_mem e hd)]
      · rfl
      · exact List.cons_ne_nil d es

theorem addToLast_own (more : List α) (es : List (Entry α)) : (addToLast more es).map Entry.own = es.map Entry.own := by
  induction es with
  | nil => rfl
  | cons e es ih =>
    cases es with
    | nil => rfl
    | cons d es =>
      rw [addToLast, List.map_cons, List.map_cons, ih]
      exact List.cons_ne_nil d es

theorem addToLast_wanted (more : List α) (es : List (Entry α)) :
    ((addToLast more es).filter Entry.wanted).map Entry.own = (es.filter Entry.wanted).map Entry.own := by
  induction es with
  | nil => rfl
  | cons e es ih =>
    cases es with
    | nil =>
      rw [addToLast, List.filter_cons, List.filter_cons]
      cases e.wanted <;> rfl
    | cons d es =>
      rw [addToLast, List.filter_cons, List.filter_cons]
      · cases e.wanted with
        | true => rw [if_pos rfl, if_pos rfl, List.map_cons, List.map_cons, ih]
        | false => rw [if_neg Bool.false_ne_true, if_neg Bool.false_ne_true, ih]
      · exact List.cons_ne_nil d es

theorem forall_addToLast {more : List α} {es : List (Entry α)} {P : Entry α → Prop} (hown : ∀ e more, P { e with added := more } ↔ P e) :
    (∀ e ∈ addToLast more es, P e) ↔ ∀ e ∈ es, P e := by
  induction es with
  | nil => rfl
  | cons e es ih =>
    cases es with
    | nil => simp [addToLast, hown]
    | cons d es =>
      rw [addToLast, List.forall_mem_cons, List.forall_mem_cons, ih]
      exact List.cons_ne_nil d es

theorem addToLast_added {more : List α} {es : List (Entry α)} (h : ∀ e ∈ es, e.added = []) :
    (∀ e ∈ addToLast more es, e.wanted = true → e.added = []) ↔ ∀ e ∈ es.getLast?, e.wanted = true → more = [] := by
  induction es with
  | nil => simp [addToLast]
  | cons e es ih =>
    cases es with
    | nil => simp [addToLast]
    | cons d es =>
      rw [addToLast, List.forall_mem_cons, List.getLast?_cons_cons, ih fun d hd => h d (List.mem_cons_of_mem e hd)]
      · exact and_iff_right fun _ => h e List.mem_cons_self
      · exact List.cons_ne_nil d es

end

section
variable {isHead : α → Bool}

theorem addLast_nil (bs : List (List α)) : addLast [] bs = bs := by
  induction bs with
  | nil => rfl
  | cons b bs ih =>
    cases bs with
    | nil => rw [addLast, List.append_nil]
    | cons c bs =>
      rw [addLast, ih]
      exact List.cons_ne_nil c bs

/-- Lists that begin with a head are cut one by one. -/
theorem front_flatMap {β : Type} {f : β → List α} {bs : List β} (hf : ∀ b ∈ bs, ∃ x xs, f b = x :: xs ∧ isHead x = true) :
    front isHead (bs.flatMap f) = [] := by
  cases bs with
  | nil => rfl
  | cons b bs =>
    obtain ⟨x, xs, hb, hx⟩ := hf b List.mem_cons_self
    rw [List.flatMap_cons, hb]
    exact front_cons_head hx _

theorem cut_flatMap {β : Type} {f : β → List α} {bs : List β} (hf : ∀ b ∈ bs, ∃ x xs, f b = x :: xs ∧ isHead x = true) :
    cut isHead (bs.flatMap f) = bs.flatMap fun b => cut isHead (f b) := by
  induction bs with
  | nil => rfl
  | cons b bs ih =>
    have hrest : ∀ c ∈ bs, ∃ x xs, f c = x :: xs ∧ isHead x = true := fun c hc => hf c (List.mem_cons_of_mem b hc)
    rw [List.flatMap_cons, List.flatMap_cons, cut_append, front_flatMap hrest, addLast_nil, ih hrest]

/-- What holds of the head of each block holds of each head. -/
theorem forall_cut {keep : α → Bool} {wanted : Bool} {xs : List α} :
    (∀ b ∈ cut isHead xs, b.head?.any keep = wanted) ↔ ∀ x ∈ xs, isHead x = true → keep x = wanted := by
  induction xs with
  | nil => simp [cut]
  | cons x xs ih =>
    rw [cut, List.forall_mem_cons]
    split
    · rename_i hx
      rw [List.forall_mem_cons, ih]
      simp [hx]
    · rename_i hx
      rw [ih]
      simp [hx]

end
end Blocks
