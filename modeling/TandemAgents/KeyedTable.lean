import Mathlib.Data.List.Nodup

/-!
# Tables with a primary key

A table is a finite list of rows no two of which share their primary key. The
three statements a program issues against one are a scan, an update of the rows
a predicate selects, and an insertion that merges into the row already holding
the key. Every operation is characterised by what it does to `find?`.
-/
namespace KeyedTable

set_option maxRecDepth 20000

variable {κ ρ : Type} {key : ρ → κ}

/-- Rows in insertion order, with the primary key constraint as a field. -/
structure Table (κ ρ : Type) (key : ρ → κ) where
  rows : List ρ
  nodup : (rows.map key).Nodup

namespace Table

/-- An assignment that preserves the key of each row preserves the key column. -/
theorem map_keys (f : ρ → ρ) (hf : ∀ r, key (f r) = key r) (rows : List ρ) :
    (rows.map f).map key = rows.map key := by
  simp [List.map_map, Function.comp_def, hf]

variable [DecidableEq κ]

def empty : Table κ ρ key := ⟨[], by simp⟩

/-- The row holding a primary key. -/
def find? (t : Table κ ρ key) (k : κ) : Option ρ := t.rows.find? (fun r => decide (key r = k))

/-- `SELECT * ... WHERE p`, in insertion order. -/
def select (t : Table κ ρ key) (p : ρ → Bool) : List ρ := t.rows.filter p

/-- `UPDATE ... SET f WHERE p`, for an assignment that leaves the key alone. -/
def update (t : Table κ ρ key) (p : ρ → Bool) (f : ρ → ρ) (hf : ∀ r, key (f r) = key r) :
    Table κ ρ key where
  rows := t.rows.map (fun r => if p r then f r else r)
  nodup := by
    rw [map_keys _ (by intro r; by_cases h : p r <;> simp [h, hf])]
    exact t.nodup

/-- `UPDATE ... SET f WHERE key = k`. -/
def modify (t : Table κ ρ key) (k : κ) (f : ρ → ρ) (hf : ∀ r, key (f r) = key r) : Table κ ρ key :=
  t.update (fun r => decide (key r = k)) f hf

/-- `INSERT ... ON CONFLICT (key) DO UPDATE`: `merge` is the row that replaces one
already holding the key. -/
def upsert (t : Table κ ρ key) (new : ρ) (merge : ρ → ρ) (hm : ∀ r, key (merge r) = key new) :
    Table κ ρ key where
  rows :=
    if key new ∈ t.rows.map key then t.rows.map (fun r => if key r = key new then merge r else r)
    else t.rows ++ [new]
  nodup := by
    split
    · rw [List.map_map]
      have hcomp : key ∘ (fun r => if key r = key new then merge r else r) = key := by
        funext r
        by_cases h : key r = key new <;> simp [h, hm]
      rw [hcomp]
      exact t.nodup
    · rename_i h
      rw [List.map_append, List.map_cons, List.map_nil]
      refine List.nodup_append.mpr ⟨t.nodup, by simp, ?_⟩
      intro a ha b hb
      rw [List.mem_singleton.mp hb]
      rintro rfl
      exact h ha

/-- `DELETE ... WHERE key = k`. -/
def erase (t : Table κ ρ key) (k : κ) : Table κ ρ key where
  rows := t.rows.filter (fun r => decide (key r ≠ k))
  nodup := t.nodup.sublist (List.filter_sublist.map key)

@[simp] theorem find?_empty (k : κ) : (empty : Table κ ρ key).find? k = none := rfl

/-- A row found under a key holds that key and belongs to the table. -/
theorem find?_some {t : Table κ ρ key} {k : κ} {r : ρ} (h : t.find? k = some r) :
    key r = k ∧ r ∈ t.rows := by
  refine ⟨?_, List.mem_of_find?_eq_some h⟩
  simpa using List.find?_some h

theorem find?_key {t : Table κ ρ key} {k : κ} {r : ρ} (h : t.find? k = some r) : key r = k :=
  (find?_some h).1

theorem find_list_of_mem (rows : List ρ) (hn : (rows.map key).Nodup) (r : ρ) (h : r ∈ rows) :
    rows.find? (fun x => decide (key x = key r)) = some r := by
  induction rows with
  | nil => cases h
  | cons x xs ih =>
    simp only [List.map_cons, List.nodup_cons] at hn
    rcases List.mem_cons.mp h with rfl | hx
    · simp
    · have hne : key x ≠ key r := by
        intro he
        exact hn.1 (he ▸ List.mem_map_of_mem hx)
      simp only [List.find?_cons, hne, decide_false]
      exact ih hn.2 hx

/-- The table's rows are exactly what `find?` returns. -/
theorem mem_rows {t : Table κ ρ key} {r : ρ} : r ∈ t.rows ↔ t.find? (key r) = some r := by
  constructor
  · exact find_list_of_mem t.rows t.nodup r
  · exact fun h => (find?_some h).2

@[simp] theorem mem_select {t : Table κ ρ key} {p : ρ → Bool} {r : ρ} :
    r ∈ t.select p ↔ t.find? (key r) = some r ∧ p r = true := by
  simp [select, mem_rows]

@[simp] theorem find?_update (t : Table κ ρ key) (p : ρ → Bool) (f : ρ → ρ)
    (hf : ∀ r, key (f r) = key r) (k : κ) :
    (t.update p f hf).find? k = (t.find? k).map (fun r => if p r then f r else r) := by
  simp only [find?, update, List.find?_map]
  congr 2
  funext r
  by_cases h : p r <;> simp [h, hf]

theorem find?_isNone {t : Table κ ρ key} {k : κ} : t.find? k = none ↔ k ∉ t.rows.map key := by
  simp [find?, List.find?_eq_none]

@[simp] theorem find?_modify (t : Table κ ρ key) (k : κ) (f : ρ → ρ)
    (hf : ∀ r, key (f r) = key r) (k' : κ) :
    (t.modify k f hf).find? k' = if k' = k then (t.find? k').map f else t.find? k' := by
  rw [modify, find?_update]
  cases h : t.find? k' with
  | none => simp
  | some r =>
    by_cases hk : k' = k
    · simp [find?_key h, hk]
    · simp [find?_key h, hk]

/-- An upsert touches the row of the new key only: it merges into the row that
is there and stores the new row otherwise. -/
@[simp] theorem find?_upsert (t : Table κ ρ key) (new : ρ) (merge : ρ → ρ)
    (hm : ∀ r, key (merge r) = key new) (k : κ) :
    (t.upsert new merge hm).find? k =
      if k = key new then some (((t.find? k).map merge).getD new) else t.find? k := by
  by_cases hmem : key new ∈ t.rows.map key
  · simp only [find?, upsert, if_pos hmem, List.find?_map]
    have hpred : (fun r => decide (key r = k)) ∘ (fun r => if key r = key new then merge r else r) =
        fun r => decide (key r = k) := by
      funext r
      by_cases h : key r = key new <;> simp [h, hm]
    rw [hpred]
    by_cases hk : k = key new
    · obtain ⟨r, hr⟩ : ∃ r, t.find? k = some r := by
        cases h : t.find? k with
        | none => exact absurd (hk ▸ hmem) (find?_isNone.mp h)
        | some r => exact ⟨r, rfl⟩
      have hr' : t.rows.find? (fun r => decide (key r = k)) = some r := hr
      simp only [hr', if_pos hk, Option.map_some, Option.getD_some]
      rw [if_pos (by rw [find?_key hr, hk])]
    · rw [if_neg hk]
      cases h : t.rows.find? (fun r => decide (key r = k)) with
      | none => rfl
      | some r =>
        have hr : t.find? k = some r := h
        simp only [Option.map_some]
        rw [if_neg (by rw [find?_key hr]; exact hk)]
  · have hnone := find?_isNone.mpr hmem
    simp only [find?, upsert, if_neg hmem, List.find?_append]
    by_cases hk : k = key new
    · subst hk
      simp only [find?] at hnone
      simp [hnone]
    · have hk' : ¬ key new = k := fun h => hk h.symm
      simp [hk, hk']

/-- An upsert whose merge overwrites every column. -/
theorem find?_overwrite (t : Table κ ρ key) (new : ρ) (hm : ∀ _ : ρ, key new = key new) (k : κ) :
    (t.upsert new (fun _ => new) hm).find? k = if k = key new then some new else t.find? k := by
  rw [find?_upsert]
  cases t.find? k <;> rfl

@[simp] theorem find?_erase (t : Table κ ρ key) (k k' : κ) :
    (t.erase k).find? k' = if k' = k then none else t.find? k' := by
  simp only [find?, erase, List.find?_filter]
  by_cases hk : k' = k
  · rw [if_pos hk, List.find?_eq_none]
    intro r _
    simp [hk]
  · rw [if_neg hk]
    congr 1
    funext r
    by_cases hr : key r = k'
    · simp [hr, hk]
    · simp [hr]

/-! ## Where a row stands -/

/-- The row found under a key stands between rows of other keys. -/
theorem find?_split {t : Table κ ρ key} {k : κ} {r : ρ} (h : t.find? k = some r) :
    ∃ l₁ l₂, t.rows = l₁ ++ r :: l₂ ∧ (∀ x ∈ l₁, key x ≠ k) ∧ ∀ x ∈ l₂, key x ≠ k := by
  obtain ⟨hk, hmem⟩ := find?_some h
  obtain ⟨l₁, l₂, hrows⟩ := List.append_of_mem hmem
  have hn := t.nodup
  rw [hrows, List.map_append, List.map_cons, List.nodup_append, List.nodup_cons] at hn
  obtain ⟨-, ⟨hright, -⟩, hleft⟩ := hn
  refine ⟨l₁, l₂, hrows, fun x hx he => ?_, fun x hx he => ?_⟩
  · exact hleft (key x) (List.mem_map_of_mem hx) (key r) List.mem_cons_self (he.trans hk.symm)
  · exact hright (hk ▸ he ▸ List.mem_map_of_mem hx)

/-- An assignment to the row of one key passes over the other rows. -/
theorem map_others (f : ρ → ρ) (k : κ) {rows : List ρ} (h : ∀ x ∈ rows, key x ≠ k) :
    rows.map (fun x => if key x = k then f x else x) = rows := by
  induction rows with
  | nil => rfl
  | cons x xs ih =>
    have hx := h x List.mem_cons_self
    rw [List.map_cons, if_neg hx, ih fun y hy => h y (List.mem_cons_of_mem x hy)]

theorem modify_rows {t : Table κ ρ key} {k : κ} {r : ρ} (h : t.find? k = some r) (f : ρ → ρ)
    (hf : ∀ r, key (f r) = key r) :
    ∃ l₁ l₂, t.rows = l₁ ++ r :: l₂ ∧ (t.modify k f hf).rows = l₁ ++ f r :: l₂ := by
  obtain ⟨l₁, l₂, hrows, hleft, hright⟩ := find?_split h
  refine ⟨l₁, l₂, hrows, ?_⟩
  simp only [modify, update, decide_eq_true_eq, hrows, List.map_append, List.map_cons]
  rw [map_others f k hleft, map_others f k hright, if_pos (find?_key h)]

theorem upsert_rows_some {t : Table κ ρ key} {new r : ρ} (h : t.find? (key new) = some r) (merge : ρ → ρ)
    (hm : ∀ r, key (merge r) = key new) :
    ∃ l₁ l₂, t.rows = l₁ ++ r :: l₂ ∧ (t.upsert new merge hm).rows = l₁ ++ merge r :: l₂ := by
  obtain ⟨l₁, l₂, hrows, hleft, hright⟩ := find?_split h
  have hmem : key new ∈ t.rows.map key := by
    rw [← find?_key h]
    exact List.mem_map_of_mem (find?_some h).2
  refine ⟨l₁, l₂, hrows, ?_⟩
  simp only [upsert, if_pos hmem]
  rw [hrows, List.map_append, List.map_cons, map_others merge _ hleft, map_others merge _ hright,
    if_pos (find?_key h)]

theorem upsert_rows_none {t : Table κ ρ key} {new : ρ} (h : t.find? (key new) = none) (merge : ρ → ρ)
    (hm : ∀ r, key (merge r) = key new) : (t.upsert new merge hm).rows = t.rows ++ [new] := by
  simp only [upsert, if_neg (find?_isNone.mp h)]

end Table
end KeyedTable
