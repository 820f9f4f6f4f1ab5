import TandemAgents.KeyedTable

/-!
# Tables with a dedupe key

A keyed table with a second, optional key that is unique as well. An insert that
meets its dedupe key merges into the row that holds it.
-/
namespace KeyedTable

set_option maxRecDepth 20000

variable {κ ρ : Type} {key : ρ → κ} {dedupe : ρ → Option String}

structure DedupeTable (κ ρ : Type) (key : ρ → κ) (dedupe : ρ → Option String) extends Table κ ρ key where
  unique : ∀ a ∈ rows, ∀ b ∈ rows, ∀ k, dedupe a = some k → dedupe b = some k → key a = key b

namespace DedupeTable

/-- The row that holds a dedupe key. `NULL` is held by none. -/
def holder (t : DedupeTable κ ρ key dedupe) (k : Option String) : Option ρ :=
  t.rows.find? (fun r => decide (k ≠ none ∧ dedupe r = k))

theorem holder_some {t : DedupeTable κ ρ key dedupe} {k : Option String} {r : ρ} (h : t.holder k = some r) :
    r ∈ t.rows ∧ k ≠ none ∧ dedupe r = k := by
  refine ⟨List.mem_of_find?_eq_some h, ?_⟩
  simpa using List.find?_some h

theorem holder_none {t : DedupeTable κ ρ key dedupe} {k : Option String} (h : t.holder k = none) {r : ρ}
    (hr : r ∈ t.rows) (hk : k ≠ none) : dedupe r ≠ k := by
  have := List.find?_eq_none.mp h r hr
  simpa [hk] using this

variable [DecidableEq κ]

/-- The row under a primary key. -/
def find? (t : DedupeTable κ ρ key dedupe) (k : κ) : Option ρ := t.toTable.find? k

def empty : DedupeTable κ ρ key dedupe := ⟨.empty, by intro a ha; cases ha⟩

@[simp] theorem find?_empty (k : κ) : (empty : DedupeTable κ ρ key dedupe).find? k = none := rfl

theorem find?_key {t : DedupeTable κ ρ key dedupe} {k : κ} {r : ρ} (h : t.find? k = some r) : key r = k :=
  Table.find?_key h

theorem mem_rows {t : DedupeTable κ ρ key dedupe} {r : ρ} : r ∈ t.rows ↔ t.find? (key r) = some r :=
  Table.mem_rows

/-- `UPDATE ... SET f WHERE p`, for an assignment that leaves both keys alone. -/
def update (t : DedupeTable κ ρ key dedupe) (p : ρ → Bool) (f : ρ → ρ) (hf : ∀ r, key (f r) = key r)
    (hd : ∀ r, dedupe (f r) = dedupe r) : DedupeTable κ ρ key dedupe where
  toTable := t.toTable.update p f hf
  unique := by
    have hkey : ∀ r, key (if p r then f r else r) = key r := by
      intro r
      by_cases h : p r <;> simp [h, hf]
    have hded : ∀ r, dedupe (if p r then f r else r) = dedupe r := by
      intro r
      by_cases h : p r <;> simp [h, hd]
    simp only [Table.update, List.mem_map]
    rintro _ ⟨a, ha, rfl⟩ _ ⟨b, hb, rfl⟩ k hak hbk
    rw [hded] at hak hbk
    rw [hkey, hkey]
    exact t.unique a ha b hb k hak hbk

@[simp] theorem find?_update (t : DedupeTable κ ρ key dedupe) (p : ρ → Bool) (f : ρ → ρ)
    (hf : ∀ r, key (f r) = key r) (hd : ∀ r, dedupe (f r) = dedupe r) (k : κ) :
    (t.update p f hf hd).find? k = (t.find? k).map (fun r => if p r then f r else r) :=
  Table.find?_update t.toTable p f hf k

/-- `UPDATE ... SET f WHERE key = k`. -/
def modify (t : DedupeTable κ ρ key dedupe) (k : κ) (f : ρ → ρ) (hf : ∀ r, key (f r) = key r)
    (hd : ∀ r, dedupe (f r) = dedupe r) : DedupeTable κ ρ key dedupe :=
  t.update (fun r => decide (key r = k)) f hf hd

@[simp] theorem find?_modify (t : DedupeTable κ ρ key dedupe) (k : κ) (f : ρ → ρ)
    (hf : ∀ r, key (f r) = key r) (hd : ∀ r, dedupe (f r) = dedupe r) (k' : κ) :
    (t.modify k f hf hd).find? k' = if k' = k then (t.find? k').map f else t.find? k' :=
  Table.find?_modify t.toTable k f hf k'

/-- A new row under a fresh primary key, when its dedupe key is free. -/
def append (t : DedupeTable κ ρ key dedupe) (new : ρ) (hfree : key new ∉ t.rows.map key)
    (hnone : t.holder (dedupe new) = none) : DedupeTable κ ρ key dedupe where
  rows := t.rows ++ [new]
  nodup := by
    rw [List.map_append, List.map_cons, List.map_nil]
    refine List.nodup_append.mpr ⟨t.nodup, by simp, ?_⟩
    intro a ha b hb
    rw [List.mem_singleton.mp hb]
    rintro rfl
    exact hfree ha
  unique := by
    intro a ha b hb k hak hbk
    rcases List.mem_append.mp ha with ha | ha <;> rcases List.mem_append.mp hb with hb | hb
    · exact t.unique a ha b hb k hak hbk
    · rw [List.mem_singleton.mp hb] at hbk
      exact absurd (hak.trans hbk.symm) (holder_none hnone ha (by rw [hbk]; exact Option.some_ne_none k))
    · rw [List.mem_singleton.mp ha] at hak
      exact absurd (hbk.trans hak.symm) (holder_none hnone hb (by rw [hak]; exact Option.some_ne_none k))
    · rw [List.mem_singleton.mp ha, List.mem_singleton.mp hb]

theorem find?_append (t : DedupeTable κ ρ key dedupe) (new : ρ) (hfree : key new ∉ t.rows.map key)
    (hnone : t.holder (dedupe new) = none) (k : κ) :
    (t.append new hfree hnone).find? k = if k = key new then some new else t.find? k := by
  have hnew : t.toTable.find? (key new) = none := Table.find?_isNone.mpr hfree
  simp only [find?, Table.find?, append, List.find?_append] at hnew ⊢
  by_cases hk : k = key new
  · subst hk
    simp [hnew]
  · have hk' : ¬ key new = k := fun h => hk h.symm
    simp [hk, hk']

/-- `INSERT ... ON CONFLICT (dedupe) DO UPDATE`: `merge` replaces the row that holds
the dedupe key; a taken primary key refuses the insert. -/
def insert (t : DedupeTable κ ρ key dedupe) (new : ρ) (merge : ρ → ρ) (hm : ∀ r, key (merge r) = key r)
    (hd : ∀ r, dedupe (merge r) = dedupe r) : Option (DedupeTable κ ρ key dedupe) :=
  match h : t.holder (dedupe new) with
  | some r => some (t.modify (key r) merge hm hd)
  | none => if hfree : key new ∈ t.rows.map key then none else some (t.append new hfree h)

/-- An insert that is not refused either merges into the row with its dedupe key or
adds its row. -/
theorem insert_eq {t u : DedupeTable κ ρ key dedupe} {new : ρ} {merge : ρ → ρ} {hm : ∀ r, key (merge r) = key r}
    {hd : ∀ r, dedupe (merge r) = dedupe r} (h : t.insert new merge hm hd = some u) :
    (∃ r, t.holder (dedupe new) = some r ∧
      ∀ k, u.find? k = if k = key r then some (merge r) else t.find? k) ∨
    (t.holder (dedupe new) = none ∧ t.find? (key new) = none ∧
      ∀ k, u.find? k = if k = key new then some new else t.find? k) := by
  unfold insert at h
  split at h
  · rename_i r hr
    obtain rfl := Option.some.inj h
    refine Or.inl ⟨r, hr, fun k => ?_⟩
    rw [find?_modify]
    by_cases hk : k = key r
    · rw [if_pos hk, if_pos hk, hk, mem_rows.mp (holder_some hr).1, Option.map_some]
    · rw [if_neg hk, if_neg hk]
  · rename_i hnone
    split at h
    · cases h
    · rename_i hfree
      obtain rfl := Option.some.inj h
      exact Or.inr ⟨hnone, Table.find?_isNone.mpr hfree, find?_append t new hfree hnone⟩

end DedupeTable
end KeyedTable
