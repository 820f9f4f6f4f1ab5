import Mathlib.Data.List.Infix
import Mathlib.Data.List.TakeDrop

/-!
# Directory trees

A tree has a node at some paths, and a directory above every node. Deleting takes everything
below a path along; copying makes the directories on the way, and where there is a directory
already it lands inside.
-/
namespace FileTree

set_option maxRecDepth 20000

inductive Node (Content : Type) where
  | dir : Node Content
  | file : Content → Node Content
  deriving DecidableEq, Repr

/-- `closed`: there is a directory above every node. -/
@[ext] structure Tree (Name Content : Type) where
  node : List Name → Option (Node Content)
  root : node [] = some .dir
  closed : ∀ p n, node (p ++ [n]) ≠ none → node p = some .dir

variable {Name Content : Type}

/-- A path leads through another one. -/
def Above (r q : List Name) : Prop := r <+: q ∧ r ≠ q

theorem above_snoc {r p : List Name} {n : Name} : Above r (p ++ [n]) ↔ r <+: p := by
  constructor
  · rintro ⟨hr, hne⟩
    exact (List.prefix_concat_iff.mp hr).resolve_left hne
  · intro hr
    refine ⟨hr.trans (List.prefix_append p [n]), ?_⟩
    rintro rfl
    have hlen := hr.length_le
    rw [List.length_append, List.length_singleton] at hlen
    omega

namespace Tree

def isDir (t : Tree Name Content) (p : List Name) : Bool :=
  match t.node p with
  | some .dir => true
  | _ => false

def fileAt (t : Tree Name Content) (p : List Name) : Option Content :=
  match t.node p with
  | some (.file c) => some c
  | _ => none

theorem isDir_iff {t : Tree Name Content} {p : List Name} : t.isDir p = true ↔ t.node p = some .dir := by
  rw [isDir]
  cases t.node p with
  | none => simp
  | some x => cases x <;> simp

theorem fileAt_iff {t : Tree Name Content} {p : List Name} {c : Content} :
    t.fileAt p = some c ↔ t.node p = some (.file c) := by
  rw [fileAt]
  cases t.node p with
  | none => simp
  | some x => cases x <;> simp

theorem fileAt_of_isDir {t : Tree Name Content} {p : List Name} (h : t.isDir p = true) : t.fileAt p = none := by
  rw [fileAt, isDir_iff.mp h]

/-- Above a node there are directories only. -/
theorem isDir_of_above {t : Tree Name Content} {r q : List Name} (h : Above r q) (hq : t.node q ≠ none) :
    t.isDir r = true := by
  induction q using List.reverseRecOn with
  | nil => exact absurd (List.prefix_nil.mp h.1) h.2
  | append_singleton p n ih =>
    have hp := t.closed p n hq
    by_cases hr : r = p
    · rw [hr]
      exact isDir_iff.mpr hp
    · exact ih ⟨above_snoc.mp h, hr⟩ (by rw [hp]; simp)

/-! ## Operations -/

section
variable [DecidableEq Name]

/-- The path and everything below it is gone; the root stays. -/
def remove (p : List Name) (t : Tree Name Content) : Tree Name Content where
  node := fun q => if p ≠ [] ∧ p <+: q then none else t.node q
  root := by
    have hroot : ¬ (p ≠ [] ∧ p <+: []) := fun h => h.1 (List.prefix_nil.mp h.2)
    rw [if_neg hroot]
    exact t.root
  closed := by
    intro q n hq
    split at hq
    · exact absurd rfl hq
    · rename_i hout
      have hq' : ¬ (p ≠ [] ∧ p <+: q) := fun h => hout ⟨h.1, h.2.trans (List.prefix_append q [n])⟩
      rw [if_neg hq']
      exact t.closed q n hq

/-- `mkdir(parents=True, exist_ok=True)`. -/
def makeDirs (p : List Name) (t : Tree Name Content) : Option (Tree Name Content) :=
  if p.inits.any fun r => (t.fileAt r).isSome then none
  else some {
    node := fun q => if q <+: p then some .dir else t.node q
    root := if_pos (List.nil_prefix)
    closed := by
      intro q n hq
      by_cases hp : q <+: p
      · exact if_pos hp
      · have hsnoc : ¬ q ++ [n] <+: p := fun h => hp ((List.prefix_append q [n]).trans h)
        rw [if_neg hsnoc] at hq
        rw [if_neg hp]
        exact t.closed q n hq }

/-- A file is written, into a directory that is there and not over one. -/
def writeFile (p : List Name) (c : Content) (t : Tree Name Content) : Option (Tree Name Content) :=
  if h : t.isDir p.dropLast = true ∧ t.isDir p = false then some {
    node := fun q => if q = p then some (.file c) else t.node q
    root := by
      have hne : [] ≠ p := by
        rintro rfl
        rw [isDir_iff.mpr t.root] at h
        exact absurd h.2 (by decide)
      rw [if_neg hne]
      exact t.root
    closed := by
      intro q n hq
      have hqp : q ≠ p ∧ t.node q = some .dir := by
        by_cases hsnoc : q ++ [n] = p
        · have hdir : t.isDir q = true := by
            rw [← hsnoc, List.dropLast_concat] at h
            exact h.1
          refine ⟨?_, isDir_iff.mp hdir⟩
          rintro rfl
          simp [hdir] at h
        · rw [if_neg hsnoc] at hq
          have hdir := t.closed q n hq
          refine ⟨?_, hdir⟩
          rintro rfl
          rw [isDir_iff.mpr hdir] at h
          exact absurd h.2 (by decide)
      rw [if_neg hqp.1]
      exact hqp.2 }
  else none

/-- `shutil.copy2` after the parent directories were made: into an existing directory the file
is copied under its own name. -/
def copyTo (p : List Name) (c : Content) (t : Tree Name Content) : Option (Tree Name Content) :=
  (makeDirs p.dropLast t).bind fun u =>
    if u.isDir p then (p.getLast?).bind fun name => u.writeFile (p ++ [name]) c else u.writeFile p c

/-- `unlink`, or `rmtree` where there is a directory; where there is nothing, nothing is done. -/
def delete (p : List Name) (t : Tree Name Content) : Tree Name Content :=
  if (t.node p).isSome then t.remove p else t

variable {p q r : List Name} {n : Name} {c : Content} {t u : Tree Name Content}

/-- Below a missing path nothing is deleted, as nothing is there. -/
theorem node_delete (hp : p ≠ []) : (t.delete p).node q = if p <+: q then none else t.node q := by
  rw [delete]
  split
  · simp only [remove, hp, ne_eq, not_false_eq_true, true_and]
  · rename_i hnone
    split
    · rename_i hpq
      by_contra hq
      have hpnone : t.node p = none := Option.not_isSome_iff_eq_none.mp hnone
      by_cases he : p = q
      · exact hq (he ▸ hpnone)
      · have hdir := isDir_of_above ⟨hpq, he⟩ hq
        rw [isDir_iff, hpnone] at hdir
        cases hdir
    · rfl

theorem makeDirs_eq_some (h : makeDirs p t = some u) : (∀ r, r <+: p → t.fileAt r = none) ∧
    ∀ q, u.node q = if q <+: p then some .dir else t.node q := by
  rw [makeDirs] at h
  split at h
  · cases h
  · rename_i hfree
    cases h
    refine ⟨fun r hr => ?_, fun _ => rfl⟩
    by_contra hfile
    exact hfree (List.any_eq_true.mpr ⟨r, (List.mem_inits r p).mpr hr, Option.isSome_iff_ne_none.mpr hfile⟩)

theorem makeDirs_of_free (h : ∀ r, r <+: p → t.fileAt r = none) : ∃ u, makeDirs p t = some u := by
  have hfree : ¬ (p.inits.any fun r => (t.fileAt r).isSome) = true := by
    intro hany
    obtain ⟨r, hr, hfile⟩ := List.any_eq_true.mp hany
    rw [h r ((List.mem_inits r p).mp hr)] at hfile
    cases hfile
  rw [makeDirs, if_neg hfree]
  exact ⟨_, rfl⟩

theorem writeFile_eq_some (h : writeFile p c t = some u) : t.isDir p = false ∧
    ∀ q, u.node q = if q = p then some (.file c) else t.node q := by
  rw [writeFile] at h
  split at h
  · rename_i hdir
    cases h
    exact ⟨hdir.2, fun _ => rfl⟩
  · cases h

theorem writeFile_of_free (hdir : t.isDir p.dropLast = true) (hp : t.isDir p = false) : ∃ u, writeFile p c t = some u := by
  rw [writeFile, dif_pos ⟨hdir, hp⟩]
  exact ⟨_, rfl⟩

/-- Where there is no directory and no file on the way, the file is written. -/
theorem copyTo_of_free (hway : ∀ r, r <+: p → t.fileAt r = none) (hp : t.isDir (p ++ [n]) = false) :
    ∃ u, copyTo (p ++ [n]) c t = some u ∧
      ∀ q, u.node q = if q = p ++ [n] then some (.file c) else if q <+: p then some .dir else t.node q := by
  obtain ⟨v, hv⟩ := makeDirs_of_free hway
  have hnode := (makeDirs_eq_some hv).2
  have hout : ¬ p ++ [n] <+: p := fun h => absurd h.length_le (by simp)
  have hvp : v.isDir (p ++ [n]) = false := by
    rw [← hp, isDir, isDir, hnode, if_neg hout]
  have hdir : v.isDir (p ++ [n]).dropLast = true := by
    rw [List.dropLast_concat, isDir_iff, hnode, if_pos (List.prefix_refl p)]
  obtain ⟨u, hu⟩ := writeFile_of_free (c := c) hdir hvp
  refine ⟨u, ?_, fun q => ?_⟩
  · rw [copyTo, List.dropLast_concat, hv, Option.bind_some, hvp]
    exact hu
  · rw [(writeFile_eq_some hu).2, hnode]

/-- A file on the way stops the copy. -/
theorem copyTo_free (h : copyTo (p ++ [n]) c t = some u) : ∀ r, r <+: p → t.fileAt r = none := by
  obtain ⟨v, hv, -⟩ := Option.bind_eq_some_iff.mp h
  rw [List.dropLast_concat] at hv
  exact (makeDirs_eq_some hv).1

/-- A directory stays a directory. -/
theorem isDir_copyTo (h : copyTo p c t = some u) (hq : t.isDir q = true) : u.isDir q = true := by
  obtain ⟨v, hv, hwrite⟩ := Option.bind_eq_some_iff.mp h
  have hvq : v.isDir q = true := by
    rw [isDir_iff] at hq ⊢
    rw [(makeDirs_eq_some hv).2, hq, ite_self]
  have hkeep : ∀ x, v.writeFile x c = some u → u.isDir q = true := by
    intro x hx
    obtain ⟨hxdir, hnode⟩ := writeFile_eq_some hx
    have hne : q ≠ x := fun he => by rw [he, hxdir] at hvq; cases hvq
    rw [isDir_iff] at hvq ⊢
    rw [hnode, if_neg hne, hvq]
  split at hwrite
  · obtain ⟨name, -, hwrite⟩ := Option.bind_eq_some_iff.mp hwrite
    exact hkeep _ hwrite
  · exact hkeep _ hwrite

/-- A file stays a file. -/
theorem fileAt_copyTo (h : copyTo p c t = some u) (hq : t.fileAt q ≠ none) : u.fileAt q ≠ none := by
  obtain ⟨v, hv, hwrite⟩ := Option.bind_eq_some_iff.mp h
  have hvq : v.fileAt q ≠ none := by
    have hout : ¬ q <+: p.dropLast := fun hr => hq ((makeDirs_eq_some hv).1 q hr)
    rwa [fileAt, (makeDirs_eq_some hv).2, if_neg hout]
  have hkeep : ∀ x, v.writeFile x c = some u → u.fileAt q ≠ none := by
    intro x hx
    rw [fileAt, (writeFile_eq_some hx).2]
    by_cases he : q = x
    · simp [he]
    · rw [if_neg he]
      exact hvq
  split at hwrite
  · obtain ⟨name, -, hwrite⟩ := Option.bind_eq_some_iff.mp hwrite
    exact hkeep _ hwrite
  · exact hkeep _ hwrite

end

end Tree

/-! ## A list of edits -/

inductive Edit (Name Content : Type) where
  | delete : List Name → Edit Name Content
  | copy : List Name → Content → Edit Name Content
  deriving DecidableEq, Repr

section
variable [DecidableEq Name]

def Edit.apply : Edit Name Content → Tree Name Content → Option (Tree Name Content)
  | .delete p, t => some (t.delete p)
  | .copy p c, t => t.copyTo p c

def run (es : List (Edit Name Content)) (t : Tree Name Content) : Option (Tree Name Content) :=
  es.foldlM (fun t e => e.apply t) t

theorem run_append (es fs : List (Edit Name Content)) (t : Tree Name Content) : run (es ++ fs) t = (run es t).bind (run fs) := by
  simp only [run, List.foldlM_append]
  rfl

theorem run_single (e : Edit Name Content) (t : Tree Name Content) : run [e] t = e.apply t := by
  simp only [run, List.foldlM_cons, List.foldlM_nil, bind_pure]

end

/-- Some edit deletes the path or one above it. -/
def Deletes (es : List (Edit Name Content)) (p : List Name) : Prop := ∃ d, .delete d ∈ es ∧ d <+: p

/-- Some edit copies a file to a path below. -/
def Parent (es : List (Edit Name Content)) (p : List Name) : Prop := ∃ q c, .copy q c ∈ es ∧ Above p q

/-- What the edits of one source are: nothing that was copied is deleted again, and what is copied
lies apart, once in each place. -/
structure Sound (es : List (Edit Name Content)) : Prop where
  ne_nil : ∀ e ∈ es, e ≠ .delete [] ∧ ∀ c, e ≠ .copy [] c
  order : es.Pairwise fun e f => ∀ q c d, e = .copy q c → f = .delete d → ¬ d <+: q
  apart : ∀ q c q' c', .copy q c ∈ es → .copy q' c' ∈ es → q <+: q' → q = q' ∧ c = c'

/-- Nothing that the edits leave is in the way of a copy. -/
structure Clear (es : List (Edit Name Content)) (t : Tree Name Content) : Prop where
  way : ∀ q c, .copy q c ∈ es → ∀ r, Above r q → t.fileAt r ≠ none → Deletes es r
  place : ∀ q c, .copy q c ∈ es → t.isDir q = true → Deletes es q

/-- The tree after the edits: copies, parents of copies, and what was there and is not deleted. -/
structure Result (es : List (Edit Name Content)) (t u : Tree Name Content) : Prop where
  copied : ∀ p c, .copy p c ∈ es → u.node p = some (.file c)
  parent : ∀ p, Parent es p → u.node p = some .dir
  other : ∀ p, (∀ c, .copy p c ∉ es) → ¬ Parent es p → (Deletes es p ∧ u.node p = none ∨ ¬ Deletes es p ∧ u.node p = t.node p)

section
variable {es fs : List (Edit Name Content)} {t u : Tree Name Content} {p q r d : List Name} {c : Content}

theorem Deletes.mono (h : Deletes es p) (hsub : es ⊆ fs) : Deletes fs p := by
  obtain ⟨d, hd, hp⟩ := h
  exact ⟨d, hsub hd, hp⟩

theorem deletes_snoc {e : Edit Name Content} : Deletes (es ++ [e]) p ↔ Deletes es p ∨ ∃ d, e = .delete d ∧ d <+: p := by
  constructor
  · rintro ⟨d, hd, hp⟩
    rcases List.mem_append.mp hd with hd | hd
    · exact .inl ⟨d, hd, hp⟩
    · exact .inr ⟨d, (List.mem_singleton.mp hd).symm, hp⟩
  · rintro (⟨d, hd, hp⟩ | ⟨d, rfl, hp⟩)
    · exact ⟨d, List.mem_append_left _ hd, hp⟩
    · exact ⟨d, List.mem_append_right _ (List.mem_singleton_self _), hp⟩

theorem deletes_snoc_copy : Deletes (es ++ [.copy q c]) p ↔ Deletes es p := by
  rw [deletes_snoc]
  simp

theorem parent_snoc_delete : Parent (es ++ [.delete d]) p ↔ Parent es p := by
  simp [Parent]

theorem mem_snoc_copy {c' : Content} : .copy p c' ∈ es ++ [.copy q c] ↔ .copy p c' ∈ es ∨ p = q ∧ c' = c := by
  simp

theorem mem_snoc_delete : .copy p c ∈ es ++ [.delete d] ↔ .copy p c ∈ es := by
  simp

/-- No copy came before a deletion above it. -/
theorem Sound.not_after (h : Sound (es ++ [.delete d])) (hq : .copy q c ∈ es) : ¬ d <+: q := by
  have hpair := (List.pairwise_append.mp h.order).2.2 _ hq _ (List.mem_singleton_self _)
  exact hpair q c d rfl rfl

theorem Sound.init {e : Edit Name Content} (h : Sound (es ++ [e])) : Sound es where
  ne_nil := fun x hx => h.ne_nil x (List.mem_append_left _ hx)
  order := (List.pairwise_append.mp h.order).1
  apart := fun q c q' c' hq hq' => h.apart q c q' c' (List.mem_append_left _ hq) (List.mem_append_left _ hq')

/-- What is deleted for a copy was deleted before it. -/
theorem Sound.deletes_init {e : Edit Name Content} (h : Sound (es ++ [e])) (hq : .copy q c ∈ es) (hr : r <+: q)
    (hd : Deletes (es ++ [e]) r) : Deletes es r := by
  rcases deletes_snoc.mp hd with hd | ⟨d, rfl, hdr⟩
  · exact hd
  · exact absurd (hdr.trans hr) (h.not_after hq)

theorem Clear.init {e : Edit Name Content} (h : Clear (es ++ [e]) t) (hs : Sound (es ++ [e])) : Clear es t where
  way := fun q c hq r hr hfile => hs.deletes_init hq hr.1 (h.way q c (List.mem_append_left _ hq) r hr hfile)
  place := fun q c hq hdir => hs.deletes_init hq (List.prefix_refl q) (h.place q c (List.mem_append_left _ hq) hdir)

theorem Result.refl (t : Tree Name Content) : Result [] t t where
  copied := by simp
  parent := by simp [Parent]
  other := by simp [Deletes]

/-- What is there after the edits, where nothing is copied to. -/
theorem Result.isDir (h : Result es t u) (hp : ∀ c, .copy p c ∉ es) (hdir : u.isDir p = true) :
    Parent es p ∨ t.isDir p = true ∧ ¬ Deletes es p := by
  by_cases hparent : Parent es p
  · exact .inl hparent
  · rcases h.other p hp hparent with ⟨-, hnone⟩ | ⟨hd, hsame⟩
    · rw [Tree.isDir_iff, hnone] at hdir
      cases hdir
    · refine .inr ⟨?_, hd⟩
      rw [Tree.isDir_iff] at hdir ⊢
      rw [← hsame, hdir]

theorem Result.fileAt (h : Result es t u) (hfile : u.fileAt p ≠ none) :
    (∃ c, .copy p c ∈ es) ∨ t.fileAt p ≠ none ∧ ¬ Deletes es p := by
  by_cases hp : ∃ c, .copy p c ∈ es
  · exact .inl hp
  · have hp' : ∀ c, .copy p c ∉ es := fun c hc => hp ⟨c, hc⟩
    by_cases hparent : Parent es p
    · exact absurd (Tree.fileAt_of_isDir (Tree.isDir_iff.mpr (h.parent p hparent))) hfile
    · rcases h.other p hp' hparent with ⟨-, hnone⟩ | ⟨hd, hsame⟩
      · rw [Tree.fileAt, hnone] at hfile
        exact absurd rfl hfile
      · refine .inr ⟨?_, hd⟩
        rwa [Tree.fileAt, ← hsame]

/-- What is deleted and not copied is gone. -/
theorem Result.gone (h : Result es t u) (hp : ∀ c, .copy p c ∉ es) (hd : Deletes es p) : u.fileAt p = none := by
  by_contra hfile
  rcases h.fileAt hfile with ⟨c, hc⟩ | ⟨-, hdel⟩
  · exact hp c hc
  · exact hdel hd

variable [DecidableEq Name]

/-- A deletion takes nothing that was copied. -/
theorem Result.delete (h : Result es t u) (hs : Sound (es ++ [.delete d])) : Result (es ++ [.delete d]) t (u.delete d) := by
  have hd : d ≠ [] := by
    rintro rfl
    exact (hs.ne_nil _ (List.mem_append_right _ (List.mem_singleton_self _))).1 rfl
  constructor
  · intro p c hp
    rw [mem_snoc_delete] at hp
    rw [Tree.node_delete hd, if_neg (hs.not_after hp)]
    exact h.copied p c hp
  · intro p hp
    rw [parent_snoc_delete] at hp
    obtain ⟨q, c, hq, hpq⟩ := hp
    have hout : ¬ d <+: p := fun hdp => hs.not_after hq (hdp.trans hpq.1)
    rw [Tree.node_delete hd, if_neg hout]
    exact h.parent p ⟨q, c, hq, hpq⟩
  · intro p hp hparent
    rw [parent_snoc_delete] at hparent
    have hp' : ∀ c, .copy p c ∉ es := fun c hc => hp c (mem_snoc_delete.mpr hc)
    rw [Tree.node_delete hd, deletes_snoc]
    by_cases hdp : d <+: p
    · exact .inl ⟨.inr ⟨d, rfl, hdp⟩, if_pos hdp⟩
    · rw [if_neg hdp]
      rcases h.other p hp' hparent with ⟨hdel, hnone⟩ | ⟨hdel, hsame⟩
      · exact .inl ⟨.inl hdel, hnone⟩
      · refine .inr ⟨?_, hsame⟩
        rintro (hdel' | ⟨x, hx, hxp⟩)
        · exact hdel hdel'
        · cases hx
          exact hdp hxp

/-- A copy finds nothing in its way. -/
theorem Result.copy {n : Name} (h : Result es t u) (hs : Sound (es ++ [.copy (q ++ [n]) c])) (hc : Clear (es ++ [.copy (q ++ [n]) c]) t) :
    ∃ v, u.copyTo (q ++ [n]) c = some v ∧ Result (es ++ [.copy (q ++ [n]) c]) t v := by
  have hmem : Edit.copy (q ++ [n]) c ∈ es ++ [.copy (q ++ [n]) c] := List.mem_append_right _ (List.mem_singleton_self _)
  have hapart : ∀ p c', .copy p c' ∈ es → p <+: q ++ [n] → p = q ++ [n] ∧ c' = c := fun p c' hp hpre =>
    hs.apart p c' _ c (List.mem_append_left _ hp) hmem hpre
  have hway : ∀ r, r <+: q → u.fileAt r = none := by
    intro r hr
    by_contra hfile
    have habove : Above r (q ++ [n]) := above_snoc.mpr hr
    rcases h.fileAt hfile with ⟨c', hc'⟩ | ⟨hold, hdel⟩
    · exact habove.2 (hapart r c' hc' habove.1).1
    · exact hdel (deletes_snoc_copy.mp (hc.way _ c hmem r habove hold))
  have hplace : u.isDir (q ++ [n]) = false := by
    by_contra hdir
    rw [Bool.not_eq_false] at hdir
    have hfresh : ∀ c', .copy (q ++ [n]) c' ∉ es := by
      intro c' hc'
      rw [Tree.isDir_iff, h.copied _ c' hc'] at hdir
      cases hdir
    rcases h.isDir hfresh hdir with ⟨p, c', hp, habove⟩ | ⟨hold, hdel⟩
    · exact habove.2 (hs.apart _ c p c' hmem (List.mem_append_left _ hp) habove.1).1
    · exact hdel (deletes_snoc_copy.mp (hc.place _ c hmem hold))
  obtain ⟨v, hv, hnode⟩ := Tree.copyTo_of_free (c := c) hway hplace
  refine ⟨v, hv, ?_, ?_, ?_⟩
  · intro p c' hp
    rw [hnode]
    rcases mem_snoc_copy.mp hp with hp | ⟨rfl, rfl⟩
    · by_cases he : p = q ++ [n]
      · rw [if_pos he, (hapart p c' hp (he ▸ List.prefix_refl _)).2]
      · have hout : ¬ p <+: q := fun hpq => he (hapart p c' hp (above_snoc.mpr hpq).1).1
        rw [if_neg he, if_neg hout]
        exact h.copied p c' hp
    · exact if_pos rfl
  · rintro p ⟨x, c', hx, hpx⟩
    rw [hnode]
    have hne : p ≠ q ++ [n] := fun he => hpx.2 (by rw [he, (hs.apart _ c x c' hmem hx (he ▸ hpx.1)).1])
    rw [if_neg hne]
    rcases mem_snoc_copy.mp hx with hx | ⟨rfl, rfl⟩
    · rw [h.parent p ⟨x, c', hx, hpx⟩, ite_self]
    · exact if_pos (above_snoc.mp hpx)
  · intro p hp hparent
    have hne : p ≠ q ++ [n] := fun he => hp c (mem_snoc_copy.mpr (.inr ⟨he, rfl⟩))
    have hout : ¬ p <+: q := fun hpq => hparent ⟨q ++ [n], c, hmem, above_snoc.mpr hpq⟩
    have hp' : ∀ c', .copy p c' ∉ es := fun c' hc' => hp c' (List.mem_append_left _ hc')
    have hparent' : ¬ Parent es p := fun ⟨x, c', hx, hpx⟩ => hparent ⟨x, c', List.mem_append_left _ hx, hpx⟩
    rw [hnode, if_neg hne, if_neg hout, deletes_snoc_copy]
    exact h.other p hp' hparent'

/-- Sound edits that find their way clear come out as they should. -/
theorem run_result (hs : Sound es) (hc : Clear es t) : ∃ u, run es t = some u ∧ Result es t u := by
  induction es using List.reverseRecOn with
  | nil => exact ⟨t, rfl, .refl t⟩
  | append_singleton es e ih =>
    obtain ⟨u, hu, hresult⟩ := ih hs.init (hc.init hs)
    rw [run_append, hu, Option.bind_some, run_single]
    cases e with
    | delete d => exact ⟨u.delete d, rfl, hresult.delete hs⟩
    | copy q c =>
      cases q using List.reverseRecOn with
      | nil => exact absurd rfl ((hs.ne_nil _ (List.mem_append_right _ (List.mem_singleton_self _))).2 c)
      | append_singleton q n => exact hresult.copy hs hc

/-! ## What is in the way stays -/

theorem delete_of_not_deletes (hd : d ≠ []) (hp : ¬ d <+: p) : (t.delete d).node p = t.node p := by
  rw [Tree.node_delete hd, if_neg hp]

/-- What no edit deletes stays a file, or stays a directory. -/
theorem run_keeps (hs : ∀ e ∈ es, e ≠ .delete []) (hp : ¬ Deletes es p) (h : run es t = some u) :
    (t.fileAt p ≠ none → u.fileAt p ≠ none) ∧ (t.isDir p = true → u.isDir p = true) := by
  induction es using List.reverseRecOn generalizing u with
  | nil =>
    cases h
    exact ⟨id, id⟩
  | append_singleton es e ih =>
    rw [run_append] at h
    obtain ⟨v, hv, hu⟩ := Option.bind_eq_some_iff.mp h
    rw [run_single] at hu
    have hkept := ih (fun x hx => hs x (List.mem_append_left _ hx)) (fun hd => hp (hd.mono (List.subset_append_left _ _))) hv
    cases e with
    | delete d =>
      cases hu
      have hd : d ≠ [] := by
        rintro rfl
        exact hs _ (List.mem_append_right _ (List.mem_singleton_self _)) rfl
      have hsame := delete_of_not_deletes (t := v) hd fun hdp => hp (deletes_snoc.mpr (.inr ⟨d, rfl, hdp⟩))
      simp only [Tree.fileAt, Tree.isDir, hsame]
      exact hkept
    | copy q c => exact ⟨fun hf => Tree.fileAt_copyTo hu (hkept.1 hf), fun hd => Tree.isDir_copyTo hu (hkept.2 hd)⟩

/-- Edits that come to their end had no file in the way of a copy. -/
theorem way_of_run (hs : ∀ e ∈ es, e ≠ .delete []) (h : run es t = some u) (hq : .copy q c ∈ es) (hr : Above r q)
    (hfile : t.fileAt r ≠ none) : Deletes es r := by
  by_contra hdel
  obtain ⟨front, back, rfl⟩ := List.append_of_mem hq
  rw [run_append] at h
  obtain ⟨v, hv, hrest⟩ := Option.bind_eq_some_iff.mp h
  have hvfile := (run_keeps (fun e he => hs e (List.mem_append_left _ he))
    (fun hd => hdel (hd.mono (List.subset_append_left _ _))) hv).1 hfile
  rw [← List.singleton_append, run_append, run_single] at hrest
  obtain ⟨w, hw, -⟩ := Option.bind_eq_some_iff.mp hrest
  cases q using List.reverseRecOn with
  | nil => exact hr.2 (List.prefix_nil.mp hr.1)
  | append_singleton q n => exact hvfile (Tree.copyTo_free hw r (above_snoc.mp hr))

end
end FileTree
