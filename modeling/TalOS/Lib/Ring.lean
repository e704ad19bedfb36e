-- SUMMARY: A bounded FIFO and its storage as a ring of cells: pushing at the head and popping at the tail.
import Mathlib.Data.List.Basic
import Mathlib.Tactic.Common

/-!
# Rings

A ring of `n` cells holds `num` elements, the oldest in cell `tail` and each
next one in the cell behind it, the first cell following the last. The newest
element is pushed into the cell behind the last one, the oldest is popped from
`tail`. `Fifo` is what the ring stands for: a list of at most `n` elements.
-/

namespace Ring

variable {α : Type}

/-- The cell behind cell `i`. -/
def next (n i : Nat) : Nat := if i + 1 ≥ n then 0 else i + 1

theorem next_eq {n i : Nat} (h : i < n) : next n i = (i + 1) % n := by
  unfold next
  rcases Nat.lt_or_ge (i + 1) n with hlt | hge
  · rw [if_neg (Nat.not_le.mpr hlt), Nat.mod_eq_of_lt hlt]
  · have heq : i + 1 = n := Nat.le_antisymm h hge
    rw [if_pos hge, heq, Nat.mod_self]

/-- The `num` elements from cell `tail` on. -/
def contents (n : Nat) (cells : Nat → α) (tail num : Nat) : List α :=
  (List.range num).map fun k => cells ((tail + k) % n)

@[simp] theorem contents_length (n : Nat) (cells : Nat → α) (tail num : Nat) :
    (contents n cells tail num).length = num := by
  rw [contents, List.length_map, List.length_range]

/-- Only the cells in use count. -/
theorem contents_congr {n tail num : Nat} {cells cells' : Nat → α}
    (h : ∀ k < num, cells ((tail + k) % n) = cells' ((tail + k) % n)) :
    contents n cells tail num = contents n cells' tail num :=
  List.map_congr_left fun k hk => h k (List.mem_range.mp hk)

/-- Two of the first `n` cells from `tail` on are different cells. -/
theorem cell_ne {n tail k l : Nat} (hk : k < l) (hl : l < n) : (tail + k) % n ≠ (tail + l) % n := by
  intro h
  have hsub : (l - k) % n = 0 := by
    have hdiff := Nat.sub_mod_eq_zero_of_mod_eq h.symm
    rwa [Nat.add_sub_add_left] at hdiff
  rw [Nat.mod_eq_of_lt (Nat.lt_of_le_of_lt (Nat.sub_le l k) hl)] at hsub
  exact Nat.sub_ne_zero_of_lt hk hsub

/-- Pushing: the cell behind the last one gets the element. -/
theorem contents_push {n tail num : Nat} {cells cells' : Nat → α} (hnum : num < n)
    (hsame : ∀ i < n, i ≠ (tail + num) % n → cells' i = cells i) :
    contents n cells' tail (num + 1) = contents n cells tail num ++ [cells' ((tail + num) % n)] := by
  have hn : 0 < n := Nat.zero_lt_of_lt hnum
  have hold : contents n cells' tail num = contents n cells tail num :=
    contents_congr fun k hk => hsame _ (Nat.mod_lt _ hn) (cell_ne hk hnum)
  rw [← hold, contents, List.range_succ, List.map_append]
  rfl

/-- Popping: the oldest element is in cell `tail`, the others are read from the cell behind it. -/
theorem contents_pop {n tail num : Nat} {cells : Nat → α} (htail : tail < n) :
    contents n cells tail (num + 1) = cells tail :: contents n cells (next n tail) num := by
  unfold contents
  rw [List.range_succ_eq_map, List.map_cons, List.map_map, Nat.add_zero, Nat.mod_eq_of_lt htail]
  congr 1
  refine List.map_congr_left fun k _ => ?_
  rw [next_eq htail, Function.comp_apply, Nat.mod_add_mod, Nat.succ_eq_add_one]
  congr 2
  omega

/-- All that was ever stored, what the cells held at the start included: `S`, the last `n` of it in the cells.
After `t` stores the next one goes to cell `t % n`. -/
structure Remembers (n : Nat) (cells : Nat → α) (t : Nat) (S : List α) : Prop where
  length_eq : S.length = t + n
  cell_eq : ∀ j < n, S[t + j]? = some (cells ((t + j) % n))

theorem Remembers.start (n : Nat) (cells : Nat → α) : Remembers n cells 0 ((List.range n).map cells) where
  length_eq := by rw [List.length_map, List.length_range, Nat.zero_add]
  cell_eq := fun j hj => by
    rw [Nat.zero_add, Nat.mod_eq_of_lt hj, List.getElem?_map, List.getElem?_range hj]
    rfl

/-- The cell that the next store goes to holds the oldest of the last `n`. -/
theorem Remembers.next_cell {n t : Nat} {cells : Nat → α} {S : List α} (h : Remembers n cells t S) (hn : 0 < n) :
    S[t]? = some (cells (t % n)) := h.cell_eq 0 hn

theorem Remembers.push {n t : Nat} {cells cells' : Nat → α} {S : List α} (h : Remembers n cells t S) (hn : 0 < n)
    (hsame : ∀ i < n, i ≠ t % n → cells' i = cells i) :
    Remembers n cells' (t + 1) (S ++ [cells' (t % n)]) where
  length_eq := by
    rw [List.length_append, List.length_singleton, h.length_eq, Nat.add_right_comm]
  cell_eq := fun j hj => by
    have hlength := h.length_eq
    rw [Nat.add_assoc, Nat.add_comm 1 j]
    rcases Nat.lt_or_eq_of_le (Nat.succ_le_of_lt hj) with hlt | heq
    · have hold := h.cell_eq (j + 1) hlt
      have hne : (t + (j + 1)) % n ≠ t % n := (cell_ne (k := 0) (Nat.succ_pos j) hlt).symm
      rw [List.getElem?_append_left (by omega), hold, hsame _ (Nat.mod_lt _ hn) hne]
    · -- The turn is complete: this is the cell just stored.
      have hlast : t + (j + 1) = S.length := by omega
      have hcell : (t + (j + 1)) % n = t % n := by
        rw [show j + 1 = n from heq, Nat.add_mod_right]
      rw [hcell, hlast, List.getElem?_concat_length]

end Ring

/-! ## Bounded FIFOs -/

namespace Fifo

variable {α : Type}

/-- Append, unless there are `n` elements. -/
def push (n : Nat) (e : α) (l : List α) : Bool × List α :=
  if l.length = n then (false, l) else (true, l ++ [e])

/-- The oldest element and the others. -/
def pop : List α → Option α × List α
  | [] => (none, [])
  | e :: l => (some e, l)

theorem pop_suffix (l : List α) : (pop l).2 <:+ l := by
  cases l with
  | nil => exact List.suffix_refl []
  | cons e l => exact List.suffix_cons e l

end Fifo
