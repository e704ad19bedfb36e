-- SUMMARY: Depth-first walks without a visited set, cut where an item has been recorded before.
import Mathlib.Data.List.Nodup
import Mathlib.Logic.Relation
import Mathlib.Tactic.Common

/-!
# Walks cut by their own record

A node has a list of items, and an item may lead on to another node. A walk
records the items of a node one by one and walks on through each of them. It has
no set of visited nodes: recording an item twice fails, and this ends the walk of
the node the item belongs to. Such a walk ends, and it records every item of
every reachable node exactly once.
-/

namespace Walk

variable {ι F σ : Type}

/-- `for (x in xs) if (f(x) fails) return failure; return success` -/
def forEach (f : F → σ → Option (σ × Bool)) : List F → σ → Option (σ × Bool)
  | [], s => some (s, true)
  | x :: xs, s => (f x s).bind fun r => if r.2 then forEach f xs r.1 else some r

/-- A loop whose first turn is written out, with `rest` for the others. -/
theorem forEach_cons (f : F → σ → Option (σ × Bool)) (x : F) {xs : List F} (rest : σ → Option (σ × Bool))
    (hrest : ∀ s, rest s = forEach f xs s) (s : σ) :
    ((f x s).bind fun r => if r.2 ≠ true then some (r.1, false) else rest r.1) = forEach f (x :: xs) s := by
  rw [forEach]
  refine congrArg (Option.bind _) (funext fun r => ?_)
  obtain ⟨s', ok⟩ := r
  cases ok with
  | false => rfl
  | true => exact hrest s'

theorem forEach_append (f : F → σ → Option (σ × Bool)) (xs ys : List F) (s : σ) :
    forEach f (xs ++ ys) s =
      (forEach f xs s).bind fun r => if r.2 then forEach f ys r.1 else some r := by
  induction xs generalizing s with
  | nil => rfl
  | cons x xs ih =>
    rw [List.cons_append, forEach, forEach]
    cases f x s with
    | none => rfl
    | some r =>
      dsimp only [Option.bind_some]
      split
      · exact ih r.1
      · rename_i hfail
        rw [Option.bind_some, if_neg hfail]

/-- A loop whose body is itself a loop. -/
theorem forEach_flatMap {G : Type} {f : F → σ → Option (σ × Bool)}
    {h : G → σ → Option (σ × Bool)} {inner : F → List G}
    (hf : ∀ x s, f x s = forEach h (inner x) s) (xs : List F) (s : σ) :
    forEach f xs s = forEach h (xs.flatMap inner) s := by
  induction xs generalizing s with
  | nil => rfl
  | cons x xs ih =>
    rw [List.flatMap_cons, forEach_append, forEach, hf]
    simp only [ih]

theorem forEach_comp {G : Type} (f : G → σ → Option (σ × Bool)) (k : F → G) (xs : List F) (s : σ) :
    forEach f (xs.map k) s = forEach (fun x => f (k x)) xs s := by
  induction xs generalizing s with
  | nil => rfl
  | cons x xs ih =>
    rw [List.map_cons, forEach, forEach]
    simp only [ih]

/-- A loop whose body passes over some elements. -/
theorem forEach_filter (f : F → σ → Option (σ × Bool)) (p : F → Bool) (xs : List F) (s : σ) :
    forEach (fun x s => if p x then f x s else some (s, true)) xs s =
      forEach f (xs.filter p) s := by
  induction xs generalizing s with
  | nil => rfl
  | cons x xs ih =>
    by_cases hx : p x
    · rw [List.filter_cons_of_pos hx, forEach, forEach, if_pos hx]
      simp only [ih]
    · rw [List.filter_cons_of_neg hx, forEach, if_neg hx, Option.bind_some, if_pos rfl, ih]

/-- A loop seen through a representation of its state. -/
theorem forEach_map {τ : Type} {φ : σ → τ} {f : F → τ → Option (τ × Bool)}
    {h : F → σ → Option (σ × Bool)} {xs : List F}
    (hf : ∀ x ∈ xs, ∀ s, f x (φ s) = (h x s).map fun r => (φ r.1, r.2)) (s : σ) :
    forEach f xs (φ s) = (forEach h xs s).map fun r => (φ r.1, r.2) := by
  induction xs generalizing s with
  | nil => rfl
  | cons x xs ih =>
    have ih' := ih fun y hy => hf y (List.mem_cons_of_mem _ hy)
    rw [forEach, forEach, hf x List.mem_cons_self]
    cases h x s with
    | none => rfl
    | some r =>
      dsimp only [Option.map_some, Option.bind_some]
      split
      · exact ih' r.1
      · rfl

/-- Nodes, their items, and where items lead. Every item belongs to one node. -/
structure Graph (ι F : Type) where
  items : ι → List F
  child : F → Option ι
  owner : F → ι
  owner_eq : ∀ b, ∀ f ∈ items b, owner f = b
  nodup : ∀ b, (items b).Nodup

/-- Record one item and walk on through it; the outcome of that walk is ignored. -/
def visit [DecidableEq F] (g : Graph ι F) (walk : ι → List F → Option (List F × Bool)) (f : F)
    (seen : List F) : Option (List F × Bool) :=
  if f ∈ seen then some (seen, false)
  else
    match g.child f with
    | none => some (seen ++ [f], true)
    | some b => (walk b (seen ++ [f])).map fun r => (r.1, true)

/-- Walk a node, nested at most `depth` deep. -/
def walk [DecidableEq F] (g : Graph ι F) : Nat → ι → List F → Option (List F × Bool)
  | 0, _, _ => none
  | depth + 1, b, seen => forEach (visit g (walk g depth)) (g.items b) seen

variable {g : Graph ι F} {b : ι} {seen seen' : List F}

/-! ## Nodes in a record -/

/-- Some item of the node is recorded. -/
def Started (g : Graph ι F) (seen : List F) (b : ι) : Prop := ∃ f ∈ g.items b, f ∈ seen

/-- There is nothing to record, or recording has begun. -/
def Met (g : Graph ι F) (seen : List F) (b : ι) : Prop := g.items b = [] ∨ Started g seen b

/-- The node is recorded completely and the nodes its items lead to are met. -/
def Done (g : Graph ι F) (seen : List F) (b : ι) : Prop :=
  ∀ f ∈ g.items b, f ∈ seen ∧ ∀ b', g.child f = some b' → Met g seen b'

/-- A node is recorded from its first item on. -/
def HeadFirst (g : Graph ι F) (seen : List F) : Prop :=
  ∀ b, Started g seen b → ∀ f, (g.items b).head? = some f → f ∈ seen

theorem Started.mono (h : Started g seen b) (hsub : seen ⊆ seen') : Started g seen' b := by
  obtain ⟨f, hf, hmem⟩ := h
  exact ⟨f, hf, hsub hmem⟩

theorem Met.mono (h : Met g seen b) (hsub : seen ⊆ seen') : Met g seen' b :=
  h.imp_right fun hstarted => hstarted.mono hsub

theorem Done.mono (h : Done g seen b) (hsub : seen ⊆ seen') : Done g seen' b :=
  fun f hf => ⟨hsub (h f hf).1, fun b' hb' => ((h f hf).2 b' hb').mono hsub⟩

/-- One more item starts at most the node it belongs to. -/
theorem Started.of_append {f : F} (h : Started g (seen ++ [f]) b) :
    Started g seen b ∨ b = g.owner f := by
  obtain ⟨f', hf', hmem⟩ := h
  rcases List.mem_append.mp hmem with hold | hnew
  · exact .inl ⟨f', hf', hold⟩
  · rw [List.mem_singleton] at hnew
    subst hnew
    exact .inr (g.owner_eq b f' hf').symm

/-! ## What one walk does -/

/-- One node leads to another. -/
def Edge (g : Graph ι F) (b b' : ι) : Prop := ∃ f ∈ g.items b, g.child f = some b'

/-- The nodes a walk from `b` can come to. -/
def Reach (g : Graph ι F) : ι → ι → Prop := Relation.ReflTransGen (Edge g)

/-- From the record `seen` to the record `seen'` by a walk of `b`: only items of
nodes that were not started are added, and those nodes are done. -/
structure Walks (g : Graph ι F) (b : ι) (seen seen' : List F) : Prop where
  sub : seen ⊆ seen'
  nodup : seen'.Nodup
  headFirst : HeadFirst g seen'
  new : ∀ f ∈ seen', f ∈ seen ∨
    f ∈ g.items (g.owner f) ∧ Reach g b (g.owner f) ∧ ¬ Started g seen (g.owner f)
  done : ∀ b', ¬ Started g seen b' → Started g seen' b' → Done g seen' b'
  met : Met g seen' b

theorem Walks.refl (hnodup : seen.Nodup) (hhead : HeadFirst g seen) (hmet : Met g seen b) :
    Walks g b seen seen :=
  ⟨List.Subset.refl _, hnodup, hhead, fun _ hf => .inl hf,
    fun _ hnot hstarted => absurd hstarted hnot, hmet⟩

/-- In the middle of a walk of `b` that began with the record `start`: the items
`past` are recorded, the items `rest` are not. -/
structure Walking (g : Graph ι F) (b : ι) (start seen : List F) (past rest : List F) : Prop where
  split : g.items b = past ++ rest
  sub : start ⊆ seen
  nodup : seen.Nodup
  headFirst : HeadFirst g seen
  new : ∀ f ∈ seen, f ∈ start ∨
    f ∈ g.items (g.owner f) ∧ Reach g b (g.owner f) ∧ ¬ Started g start (g.owner f)
  done : ∀ b', b' ≠ b → ¬ Started g start b' → Started g seen b' → Done g seen b'
  past_mem : ∀ f ∈ past, f ∈ seen ∧ ∀ b', g.child f = some b' → Met g seen b'
  rest_not_mem : ∀ f ∈ rest, f ∉ seen

variable {start past rest : List F} {f : F}

theorem Walking.begin (hnodup : seen.Nodup) (hhead : HeadFirst g seen)
    (hnot : ¬ Started g seen b) : Walking g b seen seen [] (g.items b) where
  split := rfl
  sub := List.Subset.refl _
  nodup := hnodup
  headFirst := hhead
  new := fun _ hf => .inl hf
  done := fun _ _ hnot hstarted => absurd hstarted hnot
  past_mem := nofun
  rest_not_mem := fun f hf hmem => hnot ⟨f, hf, hmem⟩

/-- All items are recorded: the walk of `b` is complete. -/
theorem Walking.finish (h : Walking g b start seen past []) : Walks g b start seen := by
  have hitems : g.items b = past := by rw [h.split, List.append_nil]
  have hdone : Done g seen b := by
    intro f hf
    exact h.past_mem f (hitems ▸ hf)
  refine ⟨h.sub, h.nodup, h.headFirst, h.new, fun b' hnot hstarted => ?_, ?_⟩
  · by_cases hb : b' = b
    · exact hb ▸ hdone
    · exact h.done b' hb hnot hstarted
  · cases hpast : g.items b with
    | nil => exact .inl hpast
    | cons f _ =>
      have hmem : f ∈ g.items b := hpast ▸ List.mem_cons_self
      exact .inr ⟨f, hmem, (hdone f hmem).1⟩

theorem Walking.mem_items (h : Walking g b start seen past (f :: rest)) : f ∈ g.items b := by
  rw [h.split]
  exact List.mem_append_right _ List.mem_cons_self

/-- Recording the next item. -/
theorem Walking.headFirst_record (h : Walking g b start seen past (f :: rest)) :
    HeadFirst g (seen ++ [f]) := by
  intro b' hstarted f' hf'
  rcases hstarted.of_append with hold | hown
  · exact List.mem_append_left _ (h.headFirst b' hold f' hf')
  · rw [g.owner_eq b f h.mem_items] at hown
    subst hown
    rw [h.split] at hf'
    cases hpast : past with
    | nil =>
      rw [hpast] at hf'
      cases hf'
      exact List.mem_append_right _ List.mem_cons_self
    | cons p ps =>
      rw [hpast] at hf'
      have hp : p = f' := Option.some.inj hf'
      exact List.mem_append_left _ (h.past_mem f' (hpast ▸ hp ▸ List.mem_cons_self)).1

theorem Walking.nodup_record (h : Walking g b start seen past (f :: rest)) :
    (seen ++ [f]).Nodup := by
  refine List.nodup_append.mpr ⟨h.nodup, List.nodup_singleton f, ?_⟩
  intro f' hf' f'' hf''
  rw [List.mem_singleton] at hf''
  rintro rfl
  exact h.rest_not_mem f' (hf'' ▸ List.mem_cons_self) hf'

/-- The next item is recorded, and the walk goes on through it with the record
`seen'` as its result; without a node behind the item `seen'` is the record itself. -/
theorem Walking.next (h : Walking g b start seen past (f :: rest)) (hnot : ¬ Started g start b)
    (hsub : seen ++ [f] ⊆ seen') (hnodup : seen'.Nodup) (hhead : HeadFirst g seen')
    (hnew : ∀ f' ∈ seen', f' ∈ seen ++ [f] ∨
      f' ∈ g.items (g.owner f') ∧ Reach g b (g.owner f') ∧ ¬ Started g (seen ++ [f]) (g.owner f'))
    (hdone : ∀ b', ¬ Started g (seen ++ [f]) b' → Started g seen' b' → Done g seen' b')
    (hmet : ∀ b', g.child f = some b' → Met g seen' b') :
    Walking g b start seen' (past ++ [f]) rest := by
  have hseen : seen ⊆ seen' := fun _ hmem => hsub (List.mem_append_left _ hmem)
  have hf : f ∈ seen' := hsub (List.mem_append_right _ List.mem_cons_self)
  have hown : g.owner f = b := g.owner_eq b f h.mem_items
  have hstarted : Started g (seen ++ [f]) b :=
    ⟨f, h.mem_items, List.mem_append_right _ List.mem_cons_self⟩
  -- An item of the new record is an old one, `f` itself, or belongs to a node that was not started.
  refine ⟨by rw [h.split, List.append_assoc]; rfl, fun _ hmem => hseen (h.sub hmem), hnodup, hhead,
    ?_, ?_, ?_, ?_⟩
  · intro f' hf'
    rcases hnew f' hf' with hold | ⟨hitem, hreach, hunstarted⟩
    · rcases List.mem_append.mp hold with hold | hlast
      · exact h.new f' hold
      · rw [List.mem_singleton] at hlast
        subst hlast
        rw [hown]
        exact .inr ⟨h.mem_items, .refl, hnot⟩
    · refine .inr ⟨hitem, hreach, fun hstart => hunstarted ?_⟩
      exact hstart.mono fun _ hmem => List.mem_append_left _ (h.sub hmem)
  · intro b' hb hunstarted hb'
    by_cases hmid : Started g (seen ++ [f]) b'
    · rcases hmid.of_append with hold | howner
      · exact (h.done b' hb hunstarted hold).mono hseen
      · exact absurd (howner.trans hown) hb
    · exact hdone b' hmid hb'
  · intro f' hf'
    rcases List.mem_append.mp hf' with hold | hlast
    · obtain ⟨hmem, hchild⟩ := h.past_mem f' hold
      exact ⟨hseen hmem, fun b' hb' => (hchild b' hb').mono hseen⟩
    · rw [List.mem_singleton] at hlast
      subst hlast
      exact ⟨hf, hmet⟩
  · intro f' hf' hmem
    have hitem : f' ∈ g.items b := by
      rw [h.split]
      exact List.mem_append_right _ (List.mem_cons_of_mem _ hf')
    rcases hnew f' hmem with hold | ⟨-, -, hunstarted⟩
    · rcases List.mem_append.mp hold with hold | hlast
      · exact h.rest_not_mem f' (List.mem_cons_of_mem _ hf') hold
      · rw [List.mem_singleton] at hlast
        subst hlast
        have hdup := g.nodup b
        rw [h.split] at hdup
        exact (List.nodup_cons.mp (List.nodup_append.mp hdup).2.1).1 hf'
    · rw [g.owner_eq b f' hitem] at hunstarted
      exact hunstarted hstarted

/-! ## What walks from several roots do -/

/-- The record holds what walks from the nodes `roots` can come to. -/
structure Covered (g : Graph ι F) (roots : List ι) (seen : List F) : Prop where
  nodup : seen.Nodup
  headFirst : HeadFirst g seen
  done : ∀ b, Started g seen b → Done g seen b
  met : ∀ r ∈ roots, Met g seen r
  sound : ∀ f ∈ seen, f ∈ g.items (g.owner f) ∧ ∃ r ∈ roots, Reach g r (g.owner f)

variable {roots : List ι}

theorem Covered.nil (g : Graph ι F) : Covered g [] [] where
  nodup := List.nodup_nil
  headFirst := fun _ hb => nomatch hb
  done := fun _ hb => nomatch hb
  met := nofun
  sound := nofun

/-- Every node that the roots reach is met. -/
theorem Covered.met_of_reach (h : Covered g roots seen) {r : ι} (hr : r ∈ roots)
    (hreach : Reach g r b) : Met g seen b := by
  induction hreach with
  | refl => exact h.met r hr
  | tail _ hedge ih =>
    obtain ⟨f, hf, hchild⟩ := hedge
    rcases ih with hempty | hstarted
    · rw [hempty] at hf
      cases hf
    · exact (h.done _ hstarted f hf).2 _ hchild

theorem Covered.started_iff (h : Covered g roots seen) :
    Started g seen b ↔ g.items b ≠ [] ∧ ∃ r ∈ roots, Reach g r b := by
  constructor
  · rintro ⟨f, hf, hmem⟩
    have hreach := (h.sound f hmem).2
    rw [g.owner_eq b f hf] at hreach
    exact ⟨List.ne_nil_of_mem hf, hreach⟩
  · rintro ⟨hitems, r, hr, hreach⟩
    exact (h.met_of_reach hr hreach).resolve_left hitems

/-- The record holds exactly the items of the nodes that the roots reach. -/
theorem Covered.mem_iff (h : Covered g roots seen) {f : F} :
    f ∈ seen ↔ f ∈ g.items (g.owner f) ∧ ∃ r ∈ roots, Reach g r (g.owner f) := by
  constructor
  · exact h.sound f
  · rintro ⟨hitem, hreach⟩
    have hstarted := h.started_iff.mpr ⟨List.ne_nil_of_mem hitem, hreach⟩
    exact (h.done _ hstarted f hitem).1

/-- A walk of one more root. -/
theorem Covered.walks (h : Covered g roots seen) (hwalks : Walks g b seen seen') :
    Covered g (roots ++ [b]) seen' where
  nodup := hwalks.nodup
  headFirst := hwalks.headFirst
  done := fun b' hb' => by
    by_cases hold : Started g seen b'
    · exact (h.done b' hold).mono hwalks.sub
    · exact hwalks.done b' hold hb'
  met := fun r hr => by
    rcases List.mem_append.mp hr with hold | hnew
    · exact (h.met r hold).mono hwalks.sub
    · rw [List.mem_singleton.mp hnew]
      exact hwalks.met
  sound := fun f hf => by
    rcases hwalks.new f hf with hold | ⟨hitem, hreach, -⟩
    · obtain ⟨hitem, r, hr, hreach⟩ := h.sound f hold
      exact ⟨hitem, r, List.mem_append_left _ hr, hreach⟩
    · exact ⟨hitem, b, List.mem_append_right _ List.mem_cons_self, hreach⟩

/-- No root that has items is reached from a root before it. -/
def Unreached (g : Graph ι F) (roots : List ι) : Prop :=
  roots.Pairwise fun r b => Reach g r b → g.items b = []

/-! ## The nodes still to be started -/

variable [DecidableEq F]

instance : Decidable (Started g seen b) := by
  unfold Started
  infer_instance

/-- How many of the nodes `all` are not started. -/
def unstarted (g : Graph ι F) (all : List ι) (seen : List F) : Nat :=
  all.countP fun b => ¬ Started g seen b

/-- Starting a node leaves fewer to be started. -/
theorem unstarted_lt {all : List ι} (hall : b ∈ all) (hsub : seen ⊆ seen')
    (hb : ¬ Started g seen b) (hb' : Started g seen' b) :
    unstarted g all seen' < unstarted g all seen := by
  have hle : ∀ l : List ι, unstarted g l seen' ≤ unstarted g l seen := by
    intro l
    refine List.countP_mono_left fun b' _ hnot => ?_
    simp only [decide_eq_true_eq] at hnot ⊢
    exact fun hstarted => hnot (hstarted.mono hsub)
  obtain ⟨pre, post, rfl⟩ := List.append_of_mem hall
  have hpre := hle pre
  have hpost := hle post
  simp only [unstarted, List.countP_append, List.countP_cons] at hpre hpost ⊢
  simp only [hb, hb', not_false_eq_true, not_true_eq_false, decide_true, decide_false,
    if_true, Bool.false_eq_true, if_false]
  omega

/-! ## The walk -/

/-- The items still to be recorded, with every nested walk as `ih` says. -/
theorem forEach_visit {all : List ι} {depth : Nat}
    (ih : ∀ {b : ι} {seen : List F}, HeadFirst g seen → seen.Nodup → unstarted g all seen < depth →
      ∃ seen' ok, walk g depth b seen = some (seen', ok) ∧ Walks g b seen seen')
    (hall : b ∈ all) (hnot : ¬ Started g start b) (hdepth : unstarted g all start ≤ depth) :
    ∀ {rest past seen : List F}, Walking g b start seen past rest →
      ∃ seen', forEach (visit g (walk g depth)) rest seen = some (seen', true) ∧
        Walks g b start seen' := by
  intro rest
  induction rest with
  | nil => exact fun h => ⟨_, rfl, h.finish⟩
  | cons f rest ihrest =>
    intro past seen h
    have hfresh : f ∉ seen := h.rest_not_mem f List.mem_cons_self
    have hsub : seen ⊆ seen ++ [f] := List.subset_append_left _ _
    cases hchild : g.child f with
    | none =>
      have hvisit : visit g (walk g depth) f seen = some (seen ++ [f], true) := by
        rw [visit, if_neg hfresh, hchild]
      have hnext := h.next hnot (List.Subset.refl _) h.nodup_record h.headFirst_record
        (fun _ hf' => .inl hf') (fun _ hn hs => absurd hs hn) (by rw [hchild]; exact nofun)
      obtain ⟨seen', hrest, hwalks⟩ := ihrest hnext
      exact ⟨seen', by rw [forEach, hvisit]; exact hrest, hwalks⟩
    | some b₁ =>
      have hstarted : Started g (seen ++ [f]) b :=
        ⟨f, h.mem_items, List.mem_append_right _ List.mem_cons_self⟩
      have hfewer : unstarted g all (seen ++ [f]) < depth :=
        Nat.lt_of_lt_of_le
          (unstarted_lt hall (List.Subset.trans h.sub hsub) hnot hstarted) hdepth
      obtain ⟨seen₁, ok, hwalk, hwalks₁⟩ :=
        ih (b := b₁) h.headFirst_record h.nodup_record hfewer
      have hvisit : visit g (walk g depth) f seen = some (seen₁, true) := by
        rw [visit, if_neg hfresh, hchild]
        dsimp only
        rw [hwalk]
        rfl
      have hedge : Reach g b b₁ := .single ⟨f, h.mem_items, hchild⟩
      have hnext := h.next hnot hwalks₁.sub hwalks₁.nodup hwalks₁.headFirst
        (fun f' hf' => (hwalks₁.new f' hf').imp_right
          fun ⟨hitem, hreach, hn⟩ => ⟨hitem, hedge.trans hreach, hn⟩)
        hwalks₁.done
        (fun b' hb' => by
          rw [hchild] at hb'
          cases hb'
          exact hwalks₁.met)
      obtain ⟨seen', hrest, hwalks⟩ := ihrest hnext
      exact ⟨seen', by rw [forEach, hvisit]; exact hrest, hwalks⟩

/-- The first item of a started node is recorded: a walk of it fails at once. -/
theorem walk_started (hhead : HeadFirst g seen) (hb : Started g seen b) (depth : Nat) :
    walk g (depth + 1) b seen = some (seen, false) := by
  cases hitems : g.items b with
  | nil =>
    obtain ⟨f, hf, -⟩ := hb
    rw [hitems] at hf
    cases hf
  | cons f rest =>
    have hmem : f ∈ seen := hhead b hb f (by rw [hitems]; rfl)
    rw [walk, hitems, forEach, visit, if_pos hmem]
    rfl

/-- A walk ends once it may nest as deep as there are nodes to be started. It
fails if and only if its node was started before. -/
theorem walk_walks {all : List ι} (hall : ∀ b, b ∈ all) {depth : Nat} :
    ∀ {b : ι} {seen : List F}, HeadFirst g seen → seen.Nodup → unstarted g all seen < depth →
      ∃ seen' ok, walk g depth b seen = some (seen', ok) ∧ Walks g b seen seen' ∧
        (ok = true ↔ ¬ Started g seen b) := by
  induction depth with
  | zero => exact fun _ _ h => absurd h (Nat.not_lt_zero _)
  | succ depth ih =>
    intro b seen hhead hnodup hdepth
    by_cases hstarted : Started g seen b
    · exact ⟨seen, false, walk_started hhead hstarted depth, .refl hnodup hhead (.inr hstarted),
        iff_of_false (by decide) (not_not_intro hstarted)⟩
    · obtain ⟨seen', hrun, hwalks⟩ := forEach_visit
        (fun hh hn hd => by
          obtain ⟨seen', ok, hwalk, hwalks, -⟩ := ih hh hn hd
          exact ⟨seen', ok, hwalk, hwalks⟩)
        (hall b) hstarted (Nat.le_of_lt_succ hdepth) (Walking.begin hnodup hhead hstarted)
      exact ⟨seen', true, hrun, hwalks, iff_of_true rfl hstarted⟩

theorem unstarted_le (g : Graph ι F) (all : List ι) (seen : List F) :
    unstarted g all seen ≤ all.length := List.countP_le_length

/-! ## Walks from several roots -/

/-- Walks from one root after another stop at the first root with items that an
earlier one has reached. -/
theorem forEach_walk {all : List ι} (hall : ∀ b, b ∈ all) {depth : Nat}
    (hdepth : all.length < depth) (h : Covered g roots seen) (rest : List ι) :
    ∃ seen' ok, forEach (walk g depth) rest seen = some (seen', ok) ∧
      (ok = true → Covered g (roots ++ rest) seen') ∧
      (ok = true ↔ Unreached g rest ∧ ∀ r ∈ roots, ∀ b ∈ rest, Reach g r b → g.items b = []) := by
  induction rest generalizing roots seen with
  | nil =>
    refine ⟨seen, true, rfl, fun _ => ?_, iff_of_true rfl ⟨.nil, fun _ _ => nofun⟩⟩
    rw [List.append_nil]
    exact h
  | cons b rest ih =>
    have hfewer := Nat.lt_of_le_of_lt (unstarted_le g all seen) hdepth
    obtain ⟨seen₁, ok₁, hwalk, hwalks, hok₁⟩ := walk_walks hall (b := b) h.headFirst h.nodup hfewer
    have hroots : ¬ Started g seen b ↔ ∀ r ∈ roots, Reach g r b → g.items b = [] := by
      rw [h.started_iff, ne_eq]
      constructor
      · exact fun hnot r hr hreach => Classical.byContradiction fun hitems =>
          hnot ⟨hitems, r, hr, hreach⟩
      · exact fun hempty ⟨hitems, r, hr, hreach⟩ => hitems (hempty r hr hreach)
    rw [hroots] at hok₁
    rw [forEach, hwalk, Option.bind_some]
    cases ok₁ with
    | false =>
      refine ⟨seen₁, false, rfl, nofun, iff_of_false nofun ?_⟩
      rintro ⟨-, hall⟩
      exact absurd (hok₁.mpr fun r hr => hall r hr b List.mem_cons_self) (by decide)
    | true =>
      obtain ⟨seen', ok, hrun, hcovered, hok⟩ := ih (h.walks hwalks)
      rw [List.append_assoc] at hcovered
      refine ⟨seen', ok, hrun, hcovered, hok.trans ?_⟩
      rw [Unreached, Unreached, List.pairwise_cons]
      constructor
      · rintro ⟨hrest, hpast⟩
        refine ⟨⟨hpast b (List.mem_append_right _ List.mem_cons_self), hrest⟩, fun r hr b' hb' => ?_⟩
        rcases List.mem_cons.mp hb' with rfl | hb'
        · exact hok₁.mp rfl r hr
        · exact hpast r (List.mem_append_left _ hr) b' hb'
      · rintro ⟨⟨hb, hrest⟩, hpast⟩
        refine ⟨hrest, fun r hr b' hb' => ?_⟩
        rcases List.mem_append.mp hr with hold | hnew
        · exact hpast r hold b' (List.mem_cons_of_mem _ hb')
        · rw [List.mem_singleton.mp hnew]
          exact hb b' hb'

/-- Walks from one root after another, over an empty record: they succeed if and
only if no root with items is reached from an earlier one, and then they record
exactly the items of the nodes they can reach, each once. -/
theorem forEach_walk_empty {all : List ι} (hall : ∀ b, b ∈ all) {depth : Nat}
    (hdepth : all.length < depth) (roots : List ι) :
    ∃ seen ok, forEach (walk g depth) roots [] = some (seen, ok) ∧
      (ok = true → seen.Nodup ∧
        ∀ f, f ∈ seen ↔ f ∈ g.items (g.owner f) ∧ ∃ r ∈ roots, Reach g r (g.owner f)) ∧
      (ok = true ↔ Unreached g roots) := by
  obtain ⟨seen, ok, hrun, hcovered, hok⟩ :=
    forEach_walk hall hdepth (Covered.nil g) roots
  refine ⟨seen, ok, hrun, fun htrue => ⟨(hcovered htrue).nodup, fun f => (hcovered htrue).mem_iff⟩,
    hok.trans ⟨fun h => h.1, fun h => ⟨h, nofun⟩⟩⟩

/-- A walk from an empty record succeeds and records exactly the items of the
nodes it can reach, each once. -/
theorem walk_empty {all : List ι} (hall : ∀ b, b ∈ all) {depth : Nat} (hdepth : all.length < depth)
    (root : ι) :
    ∃ seen, walk g depth root [] = some (seen, true) ∧ seen.Nodup ∧
      ∀ f, f ∈ seen ↔ f ∈ g.items (g.owner f) ∧ Reach g root (g.owner f) := by
  have hnone : ¬ Started g [] root := fun ⟨_, _, hmem⟩ => nomatch hmem
  obtain ⟨seen, ok, hwalk, hwalks, hok⟩ := walk_walks (g := g) hall (b := root)
    (Covered.nil g).headFirst List.nodup_nil (Nat.lt_of_le_of_lt (unstarted_le g all []) hdepth)
  have hcovered := (Covered.nil g).walks hwalks
  rw [hok.mpr hnone] at hwalk
  refine ⟨seen, hwalk, hcovered.nodup, fun f => hcovered.mem_iff.trans ?_⟩
  simp only [List.nil_append, List.mem_singleton, exists_eq_left]

end Walk
