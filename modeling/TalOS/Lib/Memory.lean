-- SUMMARY: Memories as functions of an address: writing and reading a run of cells.
import Mathlib.Data.List.Basic
import Mathlib.Tactic.Common

/-!
# Memories

A memory is a function from addresses to cells. `writeAt` stores a list of
cells from an address on, `readAt` reads a number of cells back.
-/

namespace Memory

variable {α : Type}

/-- The memory with the cells `l` stored from `start` on. -/
def writeAt (m : Nat → α) (start : Nat) (l : List α) : Nat → α :=
  fun i => if start ≤ i then (l[i - start]?).getD (m i) else m i

/-- The `n` cells from `start` on. -/
def readAt (m : Nat → α) (start n : Nat) : List α := (List.range n).map fun i => m (start + i)

@[simp] theorem writeAt_nil (m : Nat → α) (start : Nat) : writeAt m start [] = m := by
  funext i
  simp [writeAt]

theorem writeAt_of_lt {m : Nat → α} {start i : Nat} (l : List α) (h : i < start) :
    writeAt m start l i = m i := if_neg (Nat.not_le.mpr h)

theorem writeAt_of_ge {m : Nat → α} {start i : Nat} {l : List α} (h : start + l.length ≤ i) :
    writeAt m start l i = m i := by
  have hout : l.length ≤ i - start := Nat.le_sub_of_add_le' h
  rw [writeAt, if_pos (Nat.le_trans (Nat.le_add_right _ _) h), List.getElem?_eq_none hout]
  rfl

theorem writeAt_getElem {m : Nat → α} {start i : Nat} {l : List α} (h : i < l.length) :
    writeAt m start l (start + i) = l[i] := by
  rw [writeAt, if_pos (Nat.le_add_right _ _), Nat.add_sub_cancel_left, List.getElem?_eq_getElem h]
  rfl

/-- Two runs of cells, one behind the other. -/
theorem writeAt_append (m : Nat → α) (start : Nat) (l l' : List α) :
    writeAt (writeAt m start l) (start + l.length) l' = writeAt m start (l ++ l') := by
  funext i
  rcases Nat.lt_or_ge i (start + l.length) with hlt | hge
  · rw [writeAt_of_lt _ hlt]
    rcases Nat.lt_or_ge i start with hlt' | hge'
    · rw [writeAt_of_lt _ hlt', writeAt_of_lt _ hlt']
    · obtain ⟨d, rfl⟩ := Nat.exists_eq_add_of_le hge'
      have hd : d < l.length := Nat.lt_of_add_lt_add_left hlt
      have hd' : d < (l ++ l').length := by
        rw [List.length_append]
        exact Nat.lt_add_right _ hd
      rw [writeAt_getElem hd, writeAt_getElem hd', List.getElem_append_left hd]
  · obtain ⟨d, rfl⟩ := Nat.exists_eq_add_of_le hge
    rcases Nat.lt_or_ge d l'.length with hd | hd
    · have hd' : l.length + d < (l ++ l').length := by
        rw [List.length_append]
        exact Nat.add_lt_add_left hd _
      rw [writeAt_getElem hd, Nat.add_assoc, writeAt_getElem hd',
        List.getElem_append_right (Nat.le_add_right _ _)]
      simp only [Nat.add_sub_cancel_left]
    · rw [writeAt_of_ge (Nat.add_le_add_left hd _), writeAt_of_ge hge, writeAt_of_ge]
      rw [List.length_append, ← Nat.add_assoc]
      exact Nat.add_le_add_left hd _

@[simp] theorem length_readAt (m : Nat → α) (start n : Nat) : (readAt m start n).length = n := by
  simp [readAt]

theorem getElem_readAt {m : Nat → α} {start n i : Nat} (h : i < (readAt m start n).length) :
    (readAt m start n)[i] = m (start + i) := by
  simp [readAt]

/-- Reading back what was written. -/
theorem readAt_writeAt (m : Nat → α) (start : Nat) (l : List α) :
    readAt (writeAt m start l) start l.length = l := by
  refine List.ext_getElem (length_readAt _ _ _) fun i h₁ h₂ => ?_
  rw [getElem_readAt, writeAt_getElem h₂]

/-- A write elsewhere does not show. -/
theorem readAt_congr {m m' : Nat → α} {start n : Nat}
    (h : ∀ i < n, m (start + i) = m' (start + i)) : readAt m start n = readAt m' start n :=
  List.map_congr_left fun i hi => h i (List.mem_range.mp hi)

theorem readAt_eq_iff {m m' : Nat → α} {start n : Nat} :
    readAt m start n = readAt m' start n ↔ ∀ i < n, m (start + i) = m' (start + i) := by
  simp [readAt]

/-- Storing what is there already changes nothing. -/
theorem writeAt_readAt (m : Nat → α) (start n : Nat) : writeAt m start (readAt m start n) = m := by
  funext i
  rcases Nat.lt_or_ge i start with hlt | hge
  · exact writeAt_of_lt _ hlt
  · obtain ⟨d, rfl⟩ := Nat.exists_eq_add_of_le hge
    rcases Nat.lt_or_ge d (readAt m start n).length with hd | hd
    · rw [writeAt_getElem hd, getElem_readAt]
    · exact writeAt_of_ge (Nat.add_le_add_left hd _)

/-- A write to cells that are not read. -/
theorem readAt_writeAt_of_disjoint (m : Nat → α) {start n a : Nat} {l : List α}
    (h : a + n ≤ start ∨ start + l.length ≤ a) : readAt (writeAt m start l) a n = readAt m a n := by
  refine readAt_congr fun i hi => ?_
  rcases h with h | h
  · exact writeAt_of_lt l (Nat.lt_of_lt_of_le (Nat.add_lt_add_left hi a) h)
  · exact writeAt_of_ge (Nat.le_trans h (Nat.le_add_right a i))

/-- Several writes, one after the other: each an address and the cells stored from it on. -/
def writeAll (m : Nat → α) (stores : List (Nat × List α)) : Nat → α :=
  stores.foldl (fun m s => writeAt m s.1 s.2) m

theorem writeAll_append (m : Nat → α) (stores stores' : List (Nat × List α)) :
    writeAll m (stores ++ stores') = writeAll (writeAll m stores) stores' :=
  List.foldl_append

/-- Writes to cells that are not read. -/
theorem readAt_writeAll_of_disjoint (m : Nat → α) {a n : Nat} {stores : List (Nat × List α)}
    (h : ∀ s ∈ stores, a + n ≤ s.1 ∨ s.1 + s.2.length ≤ a) : readAt (writeAll m stores) a n = readAt m a n := by
  induction stores generalizing m with
  | nil => rfl
  | cons s stores ih =>
    obtain ⟨hs, hrest⟩ := List.forall_mem_cons.mp h
    exact (ih _ hrest).trans (readAt_writeAt_of_disjoint m hs)

/-- What one of the writes stored is read back, unless a later one stored there too. -/
theorem readAt_writeAll (m : Nat → α) {before after : List (Nat × List α)} {a : Nat} {l : List α}
    (h : ∀ s ∈ after, a + l.length ≤ s.1 ∨ s.1 + s.2.length ≤ a) :
    readAt (writeAll m (before ++ (a, l) :: after)) a l.length = l := by
  rw [writeAll_append]
  exact (readAt_writeAll_of_disjoint _ h).trans (readAt_writeAt _ a l)

theorem writeAt_singleton (m : Nat → α) (a : Nat) (c : α) : writeAt m a [c] = Function.update m a c := by
  funext i
  rcases Nat.lt_trichotomy i a with hlt | rfl | hgt
  · rw [writeAt_of_lt _ hlt, Function.update_of_ne (Nat.ne_of_lt hlt)]
  · rw [Function.update_self]
    exact writeAt_getElem (l := [c]) (i := 0) Nat.zero_lt_one
  · rw [writeAt_of_ge hgt, Function.update_of_ne (Nat.ne_of_gt hgt)]

/-- Storing one more cell behind a run. -/
theorem writeAt_concat (m : Nat → α) (start : Nat) (l : List α) (c : α) :
    writeAt (writeAt m start l) (start + l.length) [c] = writeAt m start (l ++ [c]) := writeAt_append m start l [c]

/-- Storing a cell inside a run. -/
theorem writeAt_set (m : Nat → α) (start : Nat) {l : List α} {i : Nat} (hi : i < l.length) (c : α) :
    writeAt (writeAt m start l) (start + i) [c] = writeAt m start (l.set i c) := by
  rw [writeAt_singleton]
  funext a
  rcases eq_or_ne a (start + i) with rfl | hne
  · rw [Function.update_self, writeAt_getElem (by rwa [List.length_set]), List.getElem_set_self]
  · rw [Function.update_of_ne hne, writeAt, writeAt]
    split
    · rw [List.getElem?_set_ne (by omega)]
    · rfl

/-! ## Moving a run of cells -/

/-- The cells `lo` to `hi` from `dst` on are what those from `src` on were in `m₀`; all others are as in `m₀`. -/
structure Moved (m₀ m : Nat → α) (dst src lo hi : Nat) : Prop where
  moved : ∀ i, lo ≤ i → i < hi → m (dst + i) = m₀ (src + i)
  frame : ∀ a, ¬ (dst + lo ≤ a ∧ a < dst + hi) → m a = m₀ a

theorem Moved.none (m : Nat → α) (dst src lo : Nat) : Moved m m dst src lo lo where
  moved := fun _ hlo hhi => absurd hlo (Nat.not_le.mpr hhi)
  frame := fun _ _ => rfl

section

variable {m₀ m : Nat → α} {dst src lo hi : Nat}

/-- Moving one cell more, `k`, whose source has not been overwritten. -/
theorem Moved.store (h : Moved m₀ m dst src lo hi) {lo' hi' k : Nat}
    (hrange : ∀ i, (lo' ≤ i ∧ i < hi') ↔ (lo ≤ i ∧ i < hi) ∨ i = k)
    (hsource : ¬ (dst + lo ≤ src + k ∧ src + k < dst + hi)) :
    Moved m₀ (writeAt m (dst + k) [m (src + k)]) dst src lo' hi' := by
  rw [writeAt_singleton, h.frame _ hsource]
  refine ⟨fun i hlo hhi => ?_, fun a ha => ?_⟩
  · by_cases hk : i = k
    · subst hk
      exact Function.update_self ..
    · obtain ⟨hlo', hhi'⟩ := ((hrange i).mp ⟨hlo, hhi⟩).resolve_right hk
      rw [Function.update_of_ne (by omega)]
      exact h.moved i hlo' hhi'
  · have hne : a ≠ dst + k := by
      rintro rfl
      have hk := (hrange k).mpr (Or.inr rfl)
      exact ha ⟨Nat.add_le_add_left hk.1 dst, Nat.add_lt_add_left hk.2 dst⟩
    rw [Function.update_of_ne hne]
    refine h.frame a fun hin => ha ?_
    have hi := (hrange (a - dst)).mpr (Or.inl (by omega))
    omega

/-- The next cell behind those moved. -/
theorem Moved.up (h : Moved m₀ m dst src lo hi) (hle : dst ≤ src) (hlo : lo ≤ hi) :
    Moved m₀ (writeAt m (dst + hi) [m (src + hi)]) dst src lo (hi + 1) :=
  h.store (fun i => by omega) (by omega)

/-- The next cell in front of those moved. -/
theorem Moved.down (h : Moved m₀ m dst src (lo + 1) hi) (hle : src ≤ dst) (hlo : lo < hi) :
    Moved m₀ (writeAt m (dst + lo) [m (src + lo)]) dst src lo hi :=
  h.store (fun i => by omega) (by omega)

end

end Memory
