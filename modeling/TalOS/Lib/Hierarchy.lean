-- SUMMARY: Hierarchies of directories and files: making, changing and removing entries, following a path with its links, and planting a whole tree.
import Mathlib.Data.List.Induction
import Mathlib.Logic.Function.Basic
import Mathlib.Tactic.Common

/-!
# Hierarchies

A place is the list of names that lead to it from the root; a hierarchy says what
each place holds. A path may also step to the directory itself or to its parent.
-/

/-- What a place holds. -/
inductive Entry (β : Type) where
  | directory
  | file (contents : β)
deriving Repr, DecidableEq

/-- A step of a path: to an entry of the directory, or along one of its links. -/
inductive PathStep (N : Type) where
  | self
  | parent
  | entry (name : N)
deriving Repr, DecidableEq

abbrev Hierarchy (N β : Type) : Type := List N → Option (Entry β)

namespace Hierarchy

variable {N β : Type}

/-- The place a step leads to. -/
def go (p : List N) : PathStep N → List N
  | .self => p
  | .parent => p.dropLast
  | .entry name => p ++ [name]

/-- The root is a directory, and whatever is below a place is below a directory. -/
structure Rooted (h : Hierarchy N β) : Prop where
  root : h [] = some .directory
  above : ∀ p name, (h (p ++ [name])).isSome → h p = some .directory

theorem Rooted.above_all {h : Hierarchy N β} (hr : h.Rooted) {p r : List N} (hne : r ≠ [])
    (hsome : (h (p ++ r)).isSome) : h p = some .directory := by
  induction r using List.reverseRecOn with
  | nil => exact absurd rfl hne
  | append_singleton r name ih =>
    rw [← List.append_assoc] at hsome
    have habove := hr.above _ _ hsome
    cases r with
    | nil => rwa [List.append_nil] at habove
    | cons word r => exact ih (List.cons_ne_nil word r) (habove ▸ rfl)

theorem Rooted.above_child {h : Hierarchy N β} (hr : h.Rooted) {p r : List N} {name : N}
    (hsome : (h (p ++ name :: r)).isSome) : (h (p ++ [name])).isSome := by
  rw [List.append_cons] at hsome
  cases r with
  | nil => rwa [List.append_nil] at hsome
  | cons word r =>
    rw [hr.above_all (List.cons_ne_nil word r) hsome]
    rfl

variable [DecidableEq N] {h : Hierarchy N β} {p : List N}

/-- Change the contents of the file at `p`. -/
def modify (h : Hierarchy N β) (p : List N) (change : β → Option β) : Option (Hierarchy N β) :=
  match h p with
  | some (.file contents) => (change contents).map fun new => Function.update h p (some (.file new))
  | _ => none

/-- Remove the entry at `p` with everything below it. The root stays. -/
def remove (h : Hierarchy N β) (p : List N) : Option (Hierarchy N β) :=
  if p ≠ [] ∧ (h p).isSome then some fun q => if p <+: q then none else h q else none

theorem modify_eq_some {contents new : β} {change : β → Option β} (hp : h p = some (.file contents))
    (hchange : change contents = some new) :
    modify h p change = some (Function.update h p (some (.file new))) := by
  rw [modify, hp]
  dsimp only
  rw [hchange, Option.map_some]

theorem remove_eq_some (hne : p ≠ []) (hp : (h p).isSome) :
    remove h p = some fun q => if p <+: q then none else h q := if_pos ⟨hne, hp⟩

variable [DecidableEq β]

/-- Make an entry in the directory at `p`. -/
def create (h : Hierarchy N β) (p : List N) (name : N) (e : Entry β) : Option (Hierarchy N β) :=
  if h p = some .directory ∧ h (p ++ [name]) = none then
    some (Function.update h (p ++ [name]) (some e))
  else none

theorem create_eq_some {name : N} {e : Entry β} (hp : h p = some .directory)
    (hfree : h (p ++ [name]) = none) :
    create h p name e = some (Function.update h (p ++ [name]) (some e)) := if_pos ⟨hp, hfree⟩

/-- The place a path leads to. Every step starts in a directory and leads to a place that holds something. -/
def follow (h : Hierarchy N β) : List (PathStep N) → List N → Option (List N)
  | [], p => some p
  | step :: steps, p =>
    if h p = some .directory ∧ (h (go p step)).isSome then follow h steps (go p step) else none

omit [DecidableEq N] in
theorem follow_append (steps steps' : List (PathStep N)) :
    follow h (steps ++ steps') p = (follow h steps p).bind (follow h steps') := by
  induction steps generalizing p with
  | nil => rfl
  | cons step steps ih =>
    rw [List.cons_append, follow, follow]
    split
    · exact ih
    · rfl

omit [DecidableEq N] in
/-- What holds something is found by its names. -/
theorem Rooted.follow_entries (hr : h.Rooted) {r : List N} (hsome : (h (p ++ r)).isSome) :
    follow h (r.map .entry) p = some (p ++ r) := by
  induction r generalizing p with
  | nil => rw [List.append_nil, List.map_nil, follow]
  | cons name r ih =>
    rw [List.map_cons, follow, go,
      if_pos ⟨hr.above_all (List.cons_ne_nil name r) hsome, hr.above_child hsome⟩]
    rw [List.append_cons p name r] at hsome ⊢
    exact ih hsome

omit [DecidableEq N] in
theorem follow_entries_eq {r q : List N} (hfollow : follow h (r.map .entry) p = some q) : q = p ++ r := by
  induction r generalizing p with
  | nil => exact (Option.some.inj hfollow).symm.trans (List.append_nil p).symm
  | cons name r ih =>
    rw [List.map_cons, follow] at hfollow
    split at hfollow
    · rw [List.append_cons]
      exact ih hfollow
    · cases hfollow

omit [DecidableEq N] in
/-- Followed by its names, a place gives what it holds. -/
theorem Rooted.read_entries (hr : h.Rooted) {r : List N} : (follow h (r.map .entry) p).bind h = h (p ++ r) := by
  cases hsome : h (p ++ r) with
  | some e => rw [hr.follow_entries (hsome ▸ rfl), Option.bind_some, hsome]
  | none =>
    rw [Option.bind_eq_none_iff]
    intro q hfollow
    rw [follow_entries_eq hfollow, hsome]

omit [DecidableEq N] in
/-- Where more places hold something, the paths lead where they led. -/
theorem follow_mono {h' : Hierarchy N β} (hsub : ∀ q e, h q = some e → h' q = some e) {q : List N}
    {steps : List (PathStep N)} (hfollow : follow h steps p = some q) : follow h' steps p = some q := by
  induction steps generalizing p with
  | nil => exact hfollow
  | cons step steps ih =>
    rw [follow] at hfollow ⊢
    split at hfollow
    · next hstep =>
      obtain ⟨e, he⟩ := Option.isSome_iff_exists.mp hstep.2
      rw [if_pos ⟨hsub _ _ hstep.1, hsub _ _ he ▸ rfl⟩]
      exact ih hfollow
    · cases hfollow

end Hierarchy

/-! ## Planting a tree -/

/-- The entries of a directory, with all that is below them. -/
inductive Listing (N β : Type) where
  | nil
  | file (name : N) (contents : β) (rest : Listing N β)
  | directory (name : N) (below rest : Listing N β)
deriving Repr, DecidableEq

namespace Listing

variable {N β : Type}

def names : Listing N β → List N
  | nil => []
  | file name _ rest => name :: rest.names
  | directory name _ rest => name :: rest.names

/-- The names in one directory differ. -/
def Distinct : Listing N β → Prop
  | nil => True
  | file name _ rest => name ∉ rest.names ∧ rest.Distinct
  | directory name below rest => name ∉ rest.names ∧ below.Distinct ∧ rest.Distinct

variable [DecidableEq N]

instance decidableDistinct : (t : Listing N β) → Decidable t.Distinct
  | nil => inferInstanceAs (Decidable True)
  | file _ _ rest => @instDecidableAnd _ _ inferInstance (decidableDistinct rest)
  | directory _ below rest =>
    @instDecidableAnd _ _ inferInstance
      (@instDecidableAnd _ _ (decidableDistinct below) (decidableDistinct rest))

/-- What is at a place below the directory. -/
def find : Listing N β → List N → Option (Entry β)
  | nil, _ => none
  | file name contents rest, p => if p = [name] then some (.file contents) else rest.find p
  | directory _ _ _, [] => none
  | directory name below rest, word :: p =>
    if word = name then if p = [] then some .directory else below.find p else rest.find (word :: p)

variable {name : N} {p : List N}

@[simp] theorem find_nil (t : Listing N β) : t.find [] = none := by
  induction t with
  | nil => rfl
  | file name contents rest ih =>
    rw [find, if_neg (List.cons_ne_nil name []).symm]
    exact ih
  | directory => rfl

theorem find_of_not_mem {t : Listing N β} (h : name ∉ t.names) : t.find (name :: p) = none := by
  induction t with
  | nil => rfl
  | file word contents rest ih =>
    obtain ⟨hne, hrest⟩ := List.ne_and_not_mem_of_not_mem_cons h
    rw [find, if_neg fun heq => hne (List.cons.inj heq).1]
    exact ih hrest
  | directory word below rest _ ih =>
    obtain ⟨hne, hrest⟩ := List.ne_and_not_mem_of_not_mem_cons h
    rw [find, if_neg hne]
    exact ih hrest

end Listing

namespace Hierarchy

variable {N β : Type} [DecidableEq N] {h : Hierarchy N β} {p q : List N} {name : N}
  {t below rest : Listing N β}

/-- Put a tree below the directory at `p`. -/
def plant (h : Hierarchy N β) (p : List N) (t : Listing N β) : Hierarchy N β := fun q =>
  if p <+: q then (t.find (q.drop p.length)).or (h q) else h q

theorem plant_append (r : List N) : plant h p t (p ++ r) = (t.find r).or (h (p ++ r)) := by
  rw [plant, if_pos (List.prefix_append p r), List.drop_left]

theorem plant_outside (hq : ¬ p <+: q) : plant h p t q = h q := if_neg hq

@[simp] theorem plant_nil : plant h p .nil = h := by
  funext q
  by_cases hq : p <+: q
  · obtain ⟨r, rfl⟩ := hq
    exact plant_append r
  · exact plant_outside hq

/-- In an empty directory nothing is in the way of a tree. -/
theorem plant_keeps (hr : h.Rooted) (hempty : ∀ name, h (p ++ [name]) = none) {e : Entry β}
    (hq : h q = some e) : plant h p t q = some e := by
  by_cases hpre : p <+: q
  · obtain ⟨r, rfl⟩ := hpre
    rw [plant_append]
    cases r with
    | nil => rw [Listing.find_nil, Option.none_or, hq]
    | cons name r =>
      have hchild := hr.above_child (hq ▸ rfl : (h (p ++ name :: r)).isSome)
      rw [hempty name] at hchild
      cases hchild
  · rw [plant_outside hpre, hq]

theorem plant_file {contents : β} (hname : name ∉ rest.names) :
    plant h p (.file name contents rest) =
      plant (Function.update h (p ++ [name]) (some (.file contents))) p rest := by
  funext q
  by_cases hq : p <+: q
  · obtain ⟨r, rfl⟩ := hq
    rw [plant_append, plant_append, Listing.find]
    split
    · next hr =>
      rw [hr, Listing.find_of_not_mem hname, Function.update_self]
      rfl
    · next hr => rw [Function.update_of_ne fun heq => hr (List.append_cancel_left heq)]
  · have hne : q ≠ p ++ [name] := fun heq => hq (heq ▸ List.prefix_append p [name])
    rw [plant_outside hq, plant_outside hq, Function.update_of_ne hne]

/-- A directory is made first, and filled before the entries behind it. -/
theorem plant_directory (hname : name ∉ rest.names) :
    plant h p (.directory name below rest) =
      plant (plant (Function.update h (p ++ [name]) (some .directory)) (p ++ [name]) below) p rest := by
  funext q
  have hupdate {r : List N} (hr : r ≠ [name]) :
      Function.update h (p ++ [name]) (some .directory) (p ++ r) = h (p ++ r) :=
    Function.update_of_ne (fun heq => hr (List.append_cancel_left heq)) _ _
  by_cases hq : p <+: q
  · obtain ⟨r, rfl⟩ := hq
    rw [plant_append, plant_append]
    rcases r with - | ⟨word, r⟩
    · have hself : ¬ p ++ [name] <+: p ++ [] := by
        rw [List.prefix_append_right_inj, List.prefix_nil]
        exact List.cons_ne_nil name []
      rw [plant_outside hself, hupdate (List.cons_ne_nil name []).symm, Listing.find_nil, Listing.find_nil]
    · rw [Listing.find]
      split
      · next hword =>
        subst hword
        have hsplit : p ++ word :: r = p ++ [word] ++ r := by
          rw [List.append_assoc, List.singleton_append]
        rw [Listing.find_of_not_mem hname, Option.none_or, hsplit, plant_append]
        split
        · next hnil =>
          rw [hnil, Listing.find_nil, List.append_nil, Function.update_self]
          rfl
        · next hne =>
          have hlonger : p ++ [word] ++ r ≠ p ++ [word] := fun heq =>
            hne (List.append_cancel_left (heq.trans (List.append_nil _).symm))
          rw [Function.update_of_ne hlonger]
      · next hword =>
        have hother : ¬ p ++ [name] <+: p ++ word :: r := by
          rw [List.prefix_append_right_inj, List.cons_prefix_cons]
          exact fun hboth => hword hboth.1.symm
        rw [plant_outside hother, hupdate fun heq => hword (List.cons.inj heq).1]
  · have hdeeper : ¬ p ++ [name] <+: q := fun hpre => hq ((List.prefix_append p [name]).trans hpre)
    have hne : q ≠ p ++ [name] := fun heq => hq (heq ▸ List.prefix_append p [name])
    rw [plant_outside hq, plant_outside hq, plant_outside hdeeper, Function.update_of_ne hne]

end Hierarchy
