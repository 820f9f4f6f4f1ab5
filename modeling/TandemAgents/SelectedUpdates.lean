import TandemAgents.Guarantees
import TandemAgents.Transactions

/-!
# Transactions that select rows and update them

A transaction reads a list with one `SELECT` and then makes one update for each entry.
What it commits is the updates of what it selected, whatever was committed in between.
-/
namespace Statements

set_option maxRecDepth 20000

variable {ι σ ρ α β : Type}

namespace Prog

/-- The updates still to make, and the `COMMIT`. -/
def updateRest (rows : β → List ρ) (f : β → σ → σ) (result : List β → α) (xs todo : List β) : Prog σ ρ α :=
  forEach (fun x => update (fun _ => rows x) (f x)) todo >>= fun _ => commit (ret (result xs))

/-- Select, update each, commit. -/
def updateEach (select : σ → List β) (rows : β → List ρ) (f : β → σ → σ) (result : List β → α) : Prog σ ρ α :=
  beginTx (query fun s => updateRest rows f result (select s) (select s))

variable {rows : β → List ρ} {f : β → σ → σ} {result : List β → α}

theorem updateRest_nil (xs : List β) : updateRest rows f result xs [] = commit (ret (result xs)) := rfl

theorem updateRest_cons (xs todo : List β) (x : β) : updateRest rows f result xs (x :: todo) =
    exec (fun _ => rows x) (fun s => some (f x s)) (fun _ => updateRest rows f result xs todo) := rfl

/-- The writes are those of the entries selected. -/
theorem each_updateEach {Φ : List σ → (σ → Option σ) → Prop} {select : σ → List β}
    (h : ∀ seen x, Φ seen (fun s => some (f x s))) : (updateEach select rows f result).Each Φ [] := by
  intro s t
  have hrest : ∀ (todo : List β) (seen : List σ), (updateRest rows f result (select t) todo).Each Φ seen := by
    intro todo
    induction todo with
    | nil => exact fun _ _ => trivial
    | cons x todo ih => exact fun seen => ⟨h seen x, fun _ => ih _⟩
  exact hrest _ _

end Prog

namespace Session

/-- The second state a transaction saw, behind its `BEGIN`, is that of its `SELECT`. -/
def selected (select : σ → List β) (x : Session σ ρ α) : List β :=
  if x.tx.isSome then ((x.seen[1]?).map select).getD [] else []

/-- The next statement is the `SELECT`. -/
def Selects (x : Session σ ρ α) : Prop := x.tx.isSome ∧ x.seen.length = 1

instance (x : Session σ ρ α) : Decidable x.Selects := by unfold Selects; infer_instance

/-- The stages of such a transaction. -/
inductive Updating (select : σ → List β) (rows : β → List ρ) (f : β → σ → σ) (result : List β → α)
    (x : Session σ ρ α) : Prop where
  | waiting : x.prog = some (Prog.updateEach select rows f result) → x.tx = none → x.seen = [] →
      Updating select rows f result x
  | selecting {s : σ} : x.prog = some (.query fun s => Prog.updateRest rows f result (select s) (select s)) →
      x.tx = some id → x.seen = [s] → Updating select rows f result x
  | updating {s t : σ} {seen : List σ} {xs todo : List β} {w : σ → σ} :
      x.prog = some (Prog.updateRest rows f result (xs ++ todo) todo) → x.tx = some w → x.seen = s :: t :: seen →
      select t = xs ++ todo → (∀ u, w u = xs.foldl (fun u x => f x u) u) → Updating select rows f result x
  | ended : x.tx = none → (∀ p, x.prog = some p → ∃ a, p = .ret a) → Updating select rows f result x

section
variable {select : σ → List β} {rows : β → List ρ} {f : β → σ → σ} {result : List β → α}
  {x y : Session σ ρ α} {db db' : σ}

theorem updating_start : (start (Prog.updateEach select rows f result)).Updating select rows f result :=
  .waiting rfl rfl rfl

theorem updating_drop (x : Session σ ρ α) : x.drop.Updating select rows f result :=
  .ended rfl fun _ hp => by cases hp

theorem selected_closed (h : x.tx = none) : x.selected select = [] := by simp [selected, h]

theorem selected_open {s t : σ} {seen : List σ} (h : x.tx.isSome) (hs : x.seen = s :: t :: seen) :
    x.selected select = select t := by simp [selected, h, hs]

@[simp] theorem selected_nothing (x : Session σ ρ α) : x.selected (fun _ => ([] : List β)) = [] := by
  unfold selected
  split
  · cases x.seen[1]? <;> rfl
  · rfl

theorem selected_early {s : σ} (hs : x.seen = [s]) : x.selected select = [] := by simp [selected, hs]

/-- One statement of such a transaction: it selects from what is committed, or commits the
updates of what it selected, or leaves the committed state and the selection alone. -/
inductive Progress (select : σ → List β) (f : β → σ → σ) (result : List β → α) (x : Session σ ρ α) (db db' : σ)
    (y : Session σ ρ α) : Prop where
  | selects : x.Selects → db' = db → y.seen = x.seen ++ [db] → y.selected select = select db →
      Progress select f result x db db' y
  | commits {k : Prog σ ρ α} : x.prog = some (.commit k) → x.tx.isSome → 2 ≤ x.seen.length →
      db' = (x.selected select).foldl (fun u x => f x u) db → y.prog = some (.ret (result (x.selected select))) →
      y.tx = none → Progress select f result x db db' y
  | other : ¬ x.Selects → (∀ k, x.prog ≠ some (.commit k)) → db' = db →
      (y.tx = none ∨ y.selected select = x.selected select) → (y.seen.length < 2 ∨ 2 ≤ x.seen.length) →
      Progress select f result x db db' y

theorem Updating.advance (h : x.Updating select rows f result) (ha : x.Advance db db' y) :
    y.Updating select rows f result ∧ Progress select f result x db db' y := by
  cases h with
  | waiting hp htx hseen =>
    cases ha with
    | beginTx hq =>
      cases hp.symm.trans hq
      have hy : (x.seen ++ [x.view db]) = [x.view db] := by rw [hseen, List.nil_append]
      refine ⟨.selecting rfl rfl hy, .other ?_ ?_ rfl (.inr ?_) (.inl ?_)⟩
      · simp [Selects, htx]
      · rw [hp]
        exact fun k hk => by cases hk
      · rw [selected_closed htx]
        exact selected_early hy
      · change (x.seen ++ [x.view db]).length < 2
        rw [hy]
        exact Nat.lt_add_one 1
    | _ hq => cases hp.symm.trans hq
  | @selecting s hp htx hseen =>
    cases ha with
    | query hq =>
      cases hp.symm.trans hq
      have hview : x.view db = db := view_some htx db
      have hy : x.seen ++ [x.view db] = s :: db :: [] := by rw [hseen, hview]; rfl
      have hopen : x.tx.isSome := by rw [htx]; rfl
      have hsel : (x.goOn (Prog.updateRest rows f result (select (x.view db)) (select (x.view db))) (x.view db)).selected
          select = select db := selected_open (by simpa using hopen) hy
      have hlen : x.seen.length = 1 := by rw [hseen]; rfl
      refine ⟨?_, .selects ⟨hopen, hlen⟩ rfl (by rw [goOn_seen, hview]) hsel⟩
      have hprog : (x.goOn (Prog.updateRest rows f result (select (x.view db)) (select (x.view db))) (x.view db)).prog =
          some (Prog.updateRest rows f result ([] ++ select db) (select db)) := by
        rw [hview]
        rfl
      exact .updating hprog htx hy rfl fun u => rfl
    | _ hq => cases hp.symm.trans hq
  | @updating s t seen xs todo w hp htx hseen hxs hw =>
    have hopen : x.tx.isSome := by rw [htx]; rfl
    have hsel : x.selected select = xs ++ todo := (selected_open hopen hseen).trans hxs
    have hlen : 2 ≤ x.seen.length := by rw [hseen]; simp
    cases todo with
    | nil =>
      rw [List.append_nil] at hp hsel hxs
      rw [Prog.updateRest_nil] at hp
      cases ha with
      | commit hq =>
        cases hp.symm.trans hq
        have hover : ∀ p, some (Prog.ret (result xs) : Prog σ ρ α) = some p → ∃ a, p = .ret a :=
          fun p hp' => ⟨_, (Option.some.inj hp').symm⟩
        refine ⟨.ended rfl hover, .commits hp hopen hlen ?_ ?_ rfl⟩
        · rw [hsel, view_some htx, hw]
        · rw [hsel]
      | _ hq => cases hp.symm.trans hq
    | cons b todo =>
      have hnot : ¬ x.Selects := fun h => by have := h.2; omega
      rw [Prog.updateRest_cons] at hp
      have hcommit : ∀ k, x.prog ≠ some (.commit k) := fun k hk => by cases hp.symm.trans hk
      cases ha with
      | refused hq hf =>
        cases hp.symm.trans hq
        cases hf
      | autocommit hq hw' hf => cases htx.symm.trans hw'
      | @write rows' f' k w' u hq hw' hf =>
        cases hp.symm.trans hq
        cases htx.symm.trans hw'
        have happ : xs ++ b :: todo = (xs ++ [b]) ++ todo := by rw [List.append_assoc]; rfl
        have hy : x.seen ++ [w db] = s :: t :: (seen ++ [w db]) := by rw [hseen]; rfl
        have hprog : some (Prog.updateRest rows f result (xs ++ b :: todo) todo) =
            some (Prog.updateRest rows f result ((xs ++ [b]) ++ todo) todo) := by rw [happ]
        refine ⟨.updating hprog rfl hy (hxs.trans happ) fun u => ?_, .other hnot hcommit rfl (.inr ?_) (.inr hlen)⟩
        · have hthen : andThen w (fun s => some (f b s)) u = f b (w u) := andThen_some rfl
          rw [hthen, hw, List.foldl_append]
          rfl
        · rw [hsel, ← hxs]
          exact selected_open rfl hy
      | _ hq => cases hp.symm.trans hq
  | ended htx hp =>
    have hnot : ¬ x.Selects := by simp [Selects, htx]
    have hcommit : ∀ k, x.prog ≠ some (.commit k) := by
      intro k hk
      obtain ⟨a, ha⟩ := hp _ hk
      cases ha
    cases ha with
    | rollback hq => exact ⟨.ended rfl hp, .other hnot hcommit rfl (.inl rfl) (Nat.lt_or_ge _ 2)⟩
    | _ hq =>
      obtain ⟨a, ha⟩ := hp _ hq
      cases ha

/-- Behind its `SELECT` a transaction is open only until it ends. -/
theorem Updating.open_back (h : x.Updating select rows f result) (hlen : 2 ≤ x.seen.length)
    (ha : x.Advance db db' y) (hy : y.tx.isSome) : x.tx.isSome := by
  have hback := ha.open_tx hy
  cases hback with
  | inl hx => exact hx
  | inr hk =>
    obtain ⟨k, hk⟩ := hk
    cases h with
    | waiting _ _ hseen =>
      rw [hseen] at hlen
      simp at hlen
    | selecting _ htx _ => rw [htx]; rfl
    | updating _ htx _ _ _ => rw [htx]; rfl
    | ended _ hp =>
      obtain ⟨a, ha⟩ := hp _ hk
      cases ha

end
end Session

/-! ## Several of them at once -/

variable {κ : Type} [DecidableEq ι] {mode : Isolation} {c d : Config ι σ ρ α} {i j : ι}

section
variable {select : σ → List β} {rows : β → List ρ} {f : β → σ → σ} {result : List β → α}

theorem Session.Updating.step (h : (c.session j).Updating select rows f result) (hs : Step mode c i d) :
    (d.session j).Updating select rows f result := by
  rcases hs.session j with ⟨-, hj⟩ | ⟨rfl, ha | ⟨hx, -⟩⟩
  · rwa [hj]
  · exact (h.advance ha).1
  · rw [hx]
    exact Session.updating_drop _

theorem updating_runs {A : Config ι σ ρ α → ι → Config ι σ ρ α → Prop} {db : σ} {p : ι → Prog σ ρ α}
    (hp : p i = Prog.updateEach select rows f result) (h : Runs mode A (.init db p) c) :
    (c.session i).Updating select rows f result := by
  have hstart : (Config.init db p).session i = .start (Prog.updateEach select rows f result) := by rw [← hp]; rfl
  exact h.invariant (I := fun c => (c.session i).Updating select rows f result)
    (hstart ▸ Session.updating_start) fun _ _ _ hd hs _ => hd.step hs

/-- A `COMMIT` applies the updates of what was selected, and returns it. -/
theorem Session.Updating.commits (h : (c.session i).Updating select rows f result) (hc : Commits c i d) :
    (c.session i).tx.isSome ∧ 2 ≤ (c.session i).seen.length ∧
      d.db = ((c.session i).selected select).foldl (fun u x => f x u) c.db ∧
      (d.session i).prog = some (.ret (result ((c.session i).selected select))) ∧ (d.session i).tx = none := by
  obtain ⟨k, db, x, hp, ha, rfl⟩ := hc
  cases (h.advance (Session.advance_cases ha)).2 with
  | selects hsel _ hx _ =>
    cases h with
    | waiting hq _ _ => cases hq.symm.trans hp
    | selecting hq _ _ => cases hq.symm.trans hp
    | updating _ _ hseen _ _ =>
      have hlen := hsel.2
      rw [hseen] at hlen
      simp at hlen
    | ended htx _ => exact absurd hsel.1 (by simp [htx])
  | commits _ hopen hlen hdb hprog htx => exact ⟨hopen, hlen, hdb, by rwa [Config.put_self], by rwa [Config.put_self]⟩
  | other _ hnot _ _ _ => exact absurd hp (hnot k)

/-- What a step does to the selection of its session. -/
theorem Session.Updating.selection_step (h : (c.session i).Updating select rows f result) (hs : Step mode c i d) :
    (d.session i).selected select = (c.session i).selected select ∨ (d.session i).tx = none ∨
      (c.session i).Selects ∧ (d.session i).selected select = select c.db := by
  have hself := hs.session i
  rcases hself with ⟨hne, -⟩ | ⟨-, ha | ⟨hx, -⟩⟩
  · exact absurd rfl hne
  · cases (h.advance ha).2 with
    | selects hsel _ _ hy => exact .inr (.inr ⟨hsel, hy⟩)
    | commits _ _ _ _ _ htx => exact .inr (.inl htx)
    | other _ _ _ hy _ =>
      cases hy with
      | inl htx => exact .inr (.inl htx)
      | inr heq => exact .inl heq
  · exact .inr (.inl (by rw [hx]; rfl))

/-- Behind its `SELECT`, an open transaction keeps its selection. -/
theorem Session.Updating.keeps_selection {xs : List β} (h : (c.session j).Updating select rows f result)
    (hlen : 2 ≤ (c.session j).seen.length) (hxs : (c.session j).tx.isSome → (c.session j).selected select = xs)
    (hs : Step mode c i d) :
    2 ≤ (d.session j).seen.length ∧ ((d.session j).tx.isSome → (d.session j).selected select = xs) := by
  rcases hs.session j with ⟨-, hj⟩ | ⟨rfl, ha | ⟨hx, -⟩⟩
  · rw [hj]
    exact ⟨hlen, hxs⟩
  · have hgrow : (c.session j).seen.length ≤ (d.session j).seen.length := ha.seen_prefix.length_le
    have hback := h.open_back hlen ha
    refine ⟨by omega, fun hopen => ?_⟩
    cases (h.advance ha).2 with
    | selects hsel _ _ _ =>
      have hone := hsel.2
      omega
    | commits _ _ _ _ _ htx =>
      rw [htx] at hopen
      cases hopen
    | other _ _ _ hy _ =>
      cases hy with
      | inl htx =>
        rw [htx] at hopen
        cases hopen
      | inr heq => rw [heq, hxs (hback hopen)]
  · rw [hx]
    exact ⟨hlen, fun hopen => by cases hopen⟩

/-- What an open transaction has selected it had selected before a run, or selects in it. -/
theorem Session.Updating.selected_by {A : Config ι σ ρ α → ι → Config ι σ ρ α → Prop}
    (h : (c.session j).Updating select rows f result) (hr : Runs mode A c d) (hd : 2 ≤ (d.session j).seen.length)
    (hopen : (d.session j).tx.isSome) :
    (d.session j).selected select = (c.session j).selected select ∨
      ∃ e, Runs mode A c e ∧ Runs mode A e d ∧ (d.session j).selected select = select e.db := by
  by_cases hlen : 2 ≤ (c.session j).seen.length
  · have hkeep := hr.invariant
      (I := fun e => (e.session j).Updating select rows f result ∧ 2 ≤ (e.session j).seen.length ∧
        ((e.session j).tx.isSome → (e.session j).selected select = (c.session j).selected select))
      ⟨h, hlen, fun _ => rfl⟩ fun _ _ _ hu hs _ => ⟨hu.1.step hs, hu.1.keeps_selection hu.2.1 hu.2.2 hs⟩
    exact .inl (hkeep.2.2 hopen)
  obtain ⟨e, i, e', hce, hs, hA, he'd, hI, hn⟩ :=
    hr.exists_last (I := fun c => (c.session j).seen.length < 2) (by omega) (by omega)
  have hupd : (e.session j).Updating select rows f result :=
    hce.invariant (I := fun c => (c.session j).Updating select rows f result) h fun _ _ _ hu hs _ => hu.step hs
  rcases hs.session j with ⟨-, hj⟩ | ⟨rfl, ha | ⟨hx, -⟩⟩
  · rw [hj] at hn
    exact absurd hI hn
  · have hprog := (hupd.advance ha).2
    cases hprog with
    | selects hsel _ hseen hy =>
      have hkeep := he'd.invariant
        (I := fun c => (c.session j).Updating select rows f result ∧ 2 ≤ (c.session j).seen.length ∧
          ((c.session j).tx.isSome → (c.session j).selected select = select e.db))
        ⟨hupd.step hs, by omega, fun _ => hy⟩
        fun _ _ _ hu hs _ => ⟨hu.1.step hs, hu.1.keeps_selection hu.2.1 hu.2.2 hs⟩
      exact .inr ⟨e, hce, (Runs.refl.step j hs hA).trans he'd, hkeep.2.2 hopen⟩
    | commits _ _ hlen' _ _ _ => omega
    | other _ _ _ _ hseen => omega
  · rw [hx] at hn
    exact absurd hI hn

end

/-- The selections of the open transactions share no key. -/
def DisjointSelections (key : β → κ) (select : ι → σ → List β) (c : Config ι σ ρ α) : Prop :=
  ∀ i j, i ≠ j → ∀ x ∈ (c.session i).selected (select i), ∀ y ∈ (c.session j).selected (select j), key x ≠ key y

/-- A `SELECT` finds nothing that another open transaction has selected. -/
def Apart (key : β → κ) (select : ι → σ → List β) (c : Config ι σ ρ α) (i : ι) : Prop :=
  (c.session i).Selects → ∀ x ∈ select i c.db, ∀ j, j ≠ i → ∀ y ∈ (c.session j).selected (select j), key x ≠ key y

instance Apart.decidable [Fintype ι] [DecidableEq κ] (key : β → κ) (select : ι → σ → List β) (c : Config ι σ ρ α)
    (i : ι) : Decidable (Apart key select c i) := by
  unfold Apart
  infer_instance

section
variable {key : β → κ} {select : ι → σ → List β}

omit [DecidableEq ι] in
theorem open_of_selected {x : Session σ ρ α} {q : σ → List β} {b : β} (h : b ∈ x.selected q) : x.tx.isSome := by
  cases htx : x.tx with
  | none =>
    rw [Session.selected_closed htx] at h
    cases h
  | some w => rfl

omit [DecidableEq ι] in
/-- With one writer at a time there is no other open transaction. -/
theorem OneWriter.apart (h : OneWriter c) (i : ι) : Apart key select c i := by
  intro hsel x _ j hj y hy
  exact absurd (h j i (open_of_selected hy) hsel.1) hj

/-- One step keeps the selections disjoint, where its own `SELECT` is apart. -/
theorem DisjointSelections.step (h : DisjointSelections key select c)
    (hi : Session.selected (select i) (d.session i) = Session.selected (select i) (c.session i) ∨
      (d.session i).tx = none ∨ (c.session i).Selects ∧ Session.selected (select i) (d.session i) = select i c.db)
    (hs : Step mode c i d) (hapart : Apart key select c i) : DisjointSelections key select d := by
  have hother : ∀ j, j ≠ i → d.session j = c.session j := by
    intro j hj
    rcases hs.session j with ⟨-, heq⟩ | ⟨heq, -⟩
    · exact heq
    · exact absurd heq hj
  have hself : ∀ j, j ≠ i → ∀ x ∈ (d.session i).selected (select i), ∀ y ∈ (d.session j).selected (select j),
      key x ≠ key y := by
    intro j hj x hx y hy
    rw [hother j hj] at hy
    rcases hi with heq | hnone | ⟨hsel, heq⟩
    · rw [heq] at hx
      exact h i j hj.symm x hx y hy
    · rw [Session.selected_closed hnone] at hx
      cases hx
    · rw [heq] at hx
      exact hapart hsel x hx j hj y hy
  intro j k hjk x hx y hy
  by_cases hj : j = i
  · subst hj
    exact hself k hjk.symm x hx y hy
  · by_cases hk : k = i
    · subst hk
      exact (hself j hj y hy x hx).symm
    · rw [hother j hj] at hx
      rw [hother k hk] at hy
      exact h j k hjk x hx y hy

end
end Statements
