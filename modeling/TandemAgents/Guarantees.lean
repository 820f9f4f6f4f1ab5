import TandemAgents.Sessions

/-!
# What the statements of a session guarantee

A guarantee relates the state before a write to the state after, for a session that has
seen a given list of states. Writes that keep to it one by one keep to it together, so
the only thing to check of a program is each of its writes.
-/
namespace Statements

set_option maxRecDepth 20000

variable {ι σ ρ α β : Type}

namespace Prog

/-- Every write meets a condition, which may look at what the program has seen by then. -/
def Each (Φ : List σ → (σ → Option σ) → Prop) : List σ → Prog σ ρ α → Prop
  | _, ret _ => True
  | seen, query k => ∀ s, (k s).Each Φ (seen ++ [s])
  | seen, exec _ f k => Φ seen f ∧ ∀ s, (k s).Each Φ (seen ++ [s])
  | seen, beginTx k => ∀ s, k.Each Φ (seen ++ [s])
  | seen, lock _ k => ∀ s, k.Each Φ (seen ++ [s])
  | seen, commit k => ∀ s, k.Each Φ (seen ++ [s])

section
variable {Φ : List σ → (σ → Option σ) → Prop}

theorem Each.bind {p : Prog σ ρ α} {g : α → Prog σ ρ β} {seen : List σ} (hp : p.Each Φ seen)
    (hg : ∀ a seen', seen <+: seen' → (g a).Each Φ seen') : (p >>= g).Each Φ seen := by
  have hsnoc : ∀ s seen', seen ++ [s] <+: seen' → seen <+: seen' :=
    fun s seen' h => (List.prefix_append seen [s]).trans h
  induction p generalizing seen with
  | ret a => exact hg a seen (List.prefix_refl seen)
  | query k ih =>
    intro s
    exact ih s (hp s) (fun a seen' h => hg a seen' (hsnoc s seen' h))
      (fun t seen' h => (List.prefix_append _ [t]).trans h)
  | exec rows f k ih =>
    refine ⟨hp.1, fun s => ?_⟩
    exact ih s (hp.2 s) (fun a seen' h => hg a seen' (hsnoc s seen' h))
      (fun t seen' h => (List.prefix_append _ [t]).trans h)
  | beginTx k ih =>
    intro s
    exact ih (hp s) (fun a seen' h => hg a seen' (hsnoc s seen' h))
      (fun t seen' h => (List.prefix_append _ [t]).trans h)
  | lock l k ih =>
    intro s
    exact ih (hp s) (fun a seen' h => hg a seen' (hsnoc s seen' h))
      (fun t seen' h => (List.prefix_append _ [t]).trans h)
  | commit k ih =>
    intro s
    exact ih (hp s) (fun a seen' h => hg a seen' (hsnoc s seen' h))
      (fun t seen' h => (List.prefix_append _ [t]).trans h)

theorem Each.forEach {body : β → Prog σ ρ Unit} {xs : List β} {seen : List σ}
    (h : ∀ x ∈ xs, ∀ seen', seen <+: seen' → (body x).Each Φ seen') : (forEach body xs).Each Φ seen := by
  induction xs generalizing seen with
  | nil => trivial
  | cons x xs ih =>
    refine (h x List.mem_cons_self seen (List.prefix_refl seen)).bind fun _ seen' hs => ih ?_
    exact fun y hy seen'' hs' => h y (List.mem_cons_of_mem x hy) seen'' (hs.trans hs')

theorem each_get (q : σ → α) (seen : List σ) : (get q : Prog σ ρ α).Each Φ seen := fun _ => trivial

theorem each_update (rows : σ → List ρ) {f : σ → σ} {seen : List σ} (h : Φ seen (fun s => some (f s))) :
    (update rows f : Prog σ ρ Unit).Each Φ seen := ⟨h, fun _ => trivial⟩

theorem each_get_bind {q : σ → α} {g : α → Prog σ ρ β} {seen : List σ} (h : ∀ s, (g (q s)).Each Φ (seen ++ [s])) :
    (get q >>= g).Each Φ seen := h

theorem each_update_bind {rows : σ → List ρ} {f : σ → σ} {g : Unit → Prog σ ρ β} {seen : List σ}
    (h : Φ seen (fun s => some (f s))) (hg : ∀ s, (g ()).Each Φ (seen ++ [s])) :
    (update rows f >>= g).Each Φ seen := ⟨h, hg⟩

theorem each_updateCount_bind {rows : σ → List ρ} {n : σ → Nat} {f : σ → σ} {g : Nat → Prog σ ρ β} {seen : List σ}
    (h : Φ seen (fun s => some (f s))) (hg : ∀ s, (g (n s)).Each Φ (seen ++ [s])) :
    (updateCount rows n f >>= g).Each Φ seen := ⟨h, hg⟩

theorem each_insertRow (rows : σ → List ρ) {f : σ → Option σ} {seen : List σ} (h : Φ seen f) :
    (insertRow rows f : Prog σ ρ Unit).Each Φ seen := ⟨h, fun _ => trivial⟩

end
end Prog

/-- Relations between states that hold of doing nothing and of one write after another,
and go on holding when more is seen. -/
structure Guarantee (σ : Type) where
  rel : List σ → σ → σ → Prop
  refl : ∀ seen s, rel seen s s
  trans : ∀ seen s t u, rel seen s t → rel seen t u → rel seen s u
  more : ∀ seen s t u, rel seen t u → rel (seen ++ [s]) t u

namespace Guarantee

/-- A state property is kept. -/
def keeps (I : σ → Prop) : Guarantee σ where
  rel _ s t := I s → I t
  refl _ _ h := h
  trans _ _ _ _ h k i := k (h i)
  more _ _ _ _ h := h

/-- A write that is not refused keeps to the guarantee. -/
def Respects (G : Guarantee σ) (seen : List σ) (f : σ → Option σ) : Prop := ∀ s t, f s = some t → G.rel seen s t

theorem respects_some {G : Guarantee σ} {seen : List σ} {f : σ → σ} (h : ∀ s, G.rel seen s (f s)) :
    G.Respects seen (fun s => some (f s)) := by
  intro s t ht
  exact Option.some.inj ht ▸ h s

end Guarantee

/-! ## One program on its own -/

namespace Prog

/-- What every write keeps, the program keeps, wherever it stops. -/
theorem Each.crash {I : σ → Prop} {p : Prog σ ρ α} {seen : List σ} (h : p.Each (Guarantee.keeps I).Respects seen)
    (n : Nat) {c : Conn σ} (hdb : I c.db) (hview : I c.view) : I (crash n p c) := by
  induction n generalizing p c seen with
  | zero => exact hdb
  | succ n ih =>
    cases p with
    | ret a => exact hdb
    | query k => exact ih (h c.view) hdb hview
    | exec rows f k =>
      rw [Prog.crash]
      cases hf : f c.view with
      | none => exact hdb
      | some t =>
        have ht : I t := h.1 _ _ hf hview
        refine ih (h.2 c.view) ?_ (by rwa [Conn.view_put])
        cases c with
        | mk db tx =>
          cases tx with
          | none => exact ht
          | some u => exact hdb
    | beginTx k => exact ih (h c.db) hdb hdb
    | lock l k => exact ih (h c.db) hdb hview
    | commit k => exact ih (h c.db) hview hview

theorem Each.go {I : σ → Prop} {p : Prog σ ρ α} {seen : List σ} (h : p.Each (Guarantee.keeps I).Respects seen)
    {c : Conn σ} (hdb : I c.db) (hview : I c.view) : I (p.go c).2.db := by
  induction p generalizing c seen with
  | ret a => exact hdb
  | query k ih => exact ih c.view (h c.view) hdb hview
  | exec rows f k ih =>
    rw [Prog.go]
    cases hf : f c.view with
    | none => exact hdb
    | some t =>
      have ht : I t := h.1 _ _ hf hview
      refine ih c.view (h.2 c.view) ?_ (by rwa [Conn.view_put])
      cases c with
      | mk db tx =>
        cases tx with
        | none => exact ht
        | some u => exact hdb
  | beginTx k ih => exact ih (h c.db) hdb hdb
  | lock l k ih => exact ih (h c.db) hdb hview
  | commit k ih => exact ih (h c.db) hview hview

/-- What every write keeps, the program keeps when it runs to its end. -/
theorem Each.run {I : σ → Prop} {p : Prog σ ρ α} {seen : List σ} (h : p.Each (Guarantee.keeps I).Respects seen)
    {s : σ} (hs : I s) : I (p.run s).2 := h.go hs hs

end Prog

/-- What is left of the program keeps to the guarantee, and so do the writes kept aside. -/
structure Guarded (G : Guarantee σ) (x : Session σ ρ α) : Prop where
  prog : ∀ p, x.prog = some p → p.Each G.Respects x.seen
  tx : ∀ w, x.tx = some w → ∀ s, G.rel x.seen s (w s)

section
variable {G : Guarantee σ} {x y : Session σ ρ α} {db db' : σ}

theorem Guarded.view (h : Guarded G x) (db : σ) : G.rel x.seen db (x.view db) := by
  cases htx : x.tx with
  | none =>
    rw [Session.view_none htx]
    exact G.refl x.seen db
  | some w =>
    rw [Session.view_some htx]
    exact h.tx w htx db

theorem guarded_start {p : Prog σ ρ α} (h : p.Each G.Respects []) : Guarded G (.start p) where
  prog q hq := Option.some.inj hq ▸ h
  tx w hw := by cases hw

theorem guarded_drop (x : Session σ ρ α) : Guarded G x.drop where
  prog p hp := by cases hp
  tx w hw := by cases hw

/-- The next statement of a guarded session. -/
theorem Guarded.advance (h : Guarded G x) (ha : x.Advance db db' y) : Guarded G y ∧ G.rel x.seen db db' := by
  have hmore : ∀ s w, x.tx = some w → ∀ t, G.rel (x.seen ++ [s]) t (w t) :=
    fun s w hw t => G.more _ s _ _ (h.tx w hw t)
  cases ha with
  | rollback hp =>
    exact ⟨⟨fun p hq => h.prog p hq, fun w hw => by cases hw⟩, G.refl _ _⟩
  | query hp =>
    exact ⟨⟨fun p hq => Option.some.inj hq ▸ h.prog _ hp _, hmore _⟩, G.refl _ _⟩
  | refused hp hf => exact ⟨guarded_drop x, G.refl _ _⟩
  | autocommit hp htx hf =>
    have hEach := h.prog _ hp
    refine ⟨⟨fun p hq => Option.some.inj hq ▸ hEach.2 _, fun w hw => ?_⟩, hEach.1 _ _ hf⟩
    exact hmore _ w hw
  | @write rows f k w t hp htx hf =>
    have hEach := h.prog _ hp
    refine ⟨⟨fun p hq => Option.some.inj hq ▸ hEach.2 _, ?_⟩, G.refl _ _⟩
    intro w' hw' s
    obtain rfl := Option.some.inj hw'
    refine G.more _ _ _ _ ?_
    cases hfs : f (w s) with
    | none =>
      rw [Session.andThen_none hfs]
      exact h.tx w htx s
    | some u =>
      rw [Session.andThen_some hfs]
      exact G.trans _ _ _ _ (h.tx w htx s) (hEach.1 _ _ hfs)
  | beginTx hp =>
    refine ⟨⟨fun p hq => Option.some.inj hq ▸ h.prog _ hp _, fun w hw s => ?_⟩, G.refl _ _⟩
    obtain rfl := Option.some.inj hw
    exact G.refl _ s
  | lock hp =>
    exact ⟨⟨fun p hq => Option.some.inj hq ▸ h.prog _ hp _, hmore _⟩, G.refl _ _⟩
  | commit hp =>
    exact ⟨⟨fun p hq => Option.some.inj hq ▸ h.prog _ hp _, fun w hw => by cases hw⟩, h.view db⟩

end

variable [DecidableEq ι]

/-- Each session keeps to its guarantee. -/
def AllGuarded (G : ι → Guarantee σ) (c : Config ι σ ρ α) : Prop := ∀ i, Guarded (G i) (c.session i)

section
variable {G : ι → Guarantee σ} {mode : Isolation} {A : Config ι σ ρ α → ι → Config ι σ ρ α → Prop}

/-- A step changes the committed state as the guarantee of its session says. -/
theorem AllGuarded.step {c d : Config ι σ ρ α} (h : AllGuarded G c) {i : ι} (hs : Step mode c i d) :
    AllGuarded G d ∧ (G i).rel (c.session i).seen c.db d.db := by
  cases hs with
  | @advance db x _ ha =>
    obtain ⟨hx, hdb⟩ := (h i).advance (Session.advance_cases ha)
    refine ⟨fun j => ?_, hdb⟩
    by_cases hj : j = i
    · rw [hj, Config.put_self]
      exact hx
    · rw [Config.put_other c hj]
      exact h j
  | stop =>
    refine ⟨fun j => ?_, (G i).refl _ _⟩
    by_cases hj : j = i
    · rw [hj, Config.put_self]
      exact guarded_drop _
    · rw [Config.put_other c hj]
      exact h j

theorem allGuarded_runs {db : σ} {p : ι → Prog σ ρ α} (hp : ∀ i, (p i).Each (G i).Respects [])
    {c : Config ι σ ρ α} (h : Runs mode A (.init db p) c) : AllGuarded G c :=
  h.invariant (fun i => guarded_start (hp i)) (fun _ _ _ hd hs _ => (AllGuarded.step hd hs).1)

/-- An invariant that the guarantees keep holds of every committed state. -/
theorem guarded_db_invariant {I : σ → Prop} {db : σ} {p : ι → Prog σ ρ α}
    (hp : ∀ i, (p i).Each (G i).Respects []) (hdb : I db)
    (hI : ∀ i seen s t, (G i).rel seen s t → I s → I t) {c : Config ι σ ρ α}
    (h : Runs mode A (.init db p) c) : I c.db := by
  refine (h.invariant (I := fun c => AllGuarded G c ∧ I c.db) ⟨fun i => guarded_start (hp i), hdb⟩ ?_).2
  intro d i e hd hs _
  obtain ⟨hg, hde⟩ := AllGuarded.step hd.1 hs
  exact ⟨hg, hI i _ _ _ hde hd.2⟩

end
end Statements
