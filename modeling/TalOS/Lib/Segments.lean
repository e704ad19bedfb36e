-- SUMMARY: The maximal segments of a list whose elements satisfy a predicate: where they start, how long they are.
import Mathlib.Data.List.TakeWhile
import Mathlib.Tactic.Common

/-!
# Segments of a list

A segment is a non-empty run of elements that satisfy a predicate and that can be
extended on neither side. `starts` finds the segments in one pass from left to right.
-/

namespace Segments

variable {α : Type} {p : α → Bool}

/-- The `len` elements from position `start` on are a segment. -/
structure IsSegment (p : α → Bool) (l : List α) (start len : Nat) : Prop where
  pos : 0 < len
  inside : ∀ k < len, ∃ c, l[start + k]? = some c ∧ p c = true
  before : ∀ k c, start = k + 1 → l[k]? = some c → p c = false
  after : ∀ c, l[start + len]? = some c → p c = false

/-- The positions at which segments start, counted from `off` on; `within` tells whether the element
before the list satisfies the predicate. -/
def starts (p : α → Bool) (within : Bool) (off : Nat) : List α → List Nat
  | [] => []
  | c :: l =>
    if p c && !within then off :: starts p (p c) (off + 1) l else starts p (p c) (off + 1) l

/-- How many elements from position `i` on satisfy the predicate. -/
def runLength (p : α → Bool) (l : List α) (i : Nat) : Nat := ((l.drop i).takeWhile p).length

/-- The segments of a list, as pairs of a start and a length. -/
def segments (p : α → Bool) (l : List α) : List (Nat × Nat) :=
  (starts p false 0 l).map fun i => (i, runLength p l i)

/-! ## The segments are all of them, in order -/

theorem takeWhile_length_eq_iff {l : List α} {n : Nat} :
    (l.takeWhile p).length = n ↔
      (∀ k < n, ∃ c, l[k]? = some c ∧ p c = true) ∧ ∀ c, l[n]? = some c → p c = false := by
  induction l generalizing n with
  | nil =>
    cases n with
    | zero => simp
    | succ n =>
      refine iff_of_false (by simp) fun h => ?_
      obtain ⟨c, hc, -⟩ := h.1 0 (Nat.succ_pos n)
      cases hc
  | cons a l ih =>
    cases n with
    | zero =>
      cases ha : p a with
      | false => simp [ha]
      | true => simp [ha]
    | succ n =>
      cases ha : p a with
      | false =>
        refine iff_of_false (by simp [ha]) fun h => ?_
        obtain ⟨c, hc, hpc⟩ := h.1 0 (Nat.succ_pos n)
        obtain rfl : a = c := Option.some.inj hc
        rw [ha] at hpc
        cases hpc
      | true =>
        rw [List.takeWhile_cons_of_pos ha, List.length_cons, Nat.add_right_cancel_iff, ih]
        constructor
        · rintro ⟨hin, hout⟩
          refine ⟨fun k hk => ?_, hout⟩
          cases k with
          | zero => exact ⟨a, rfl, ha⟩
          | succ k => exact hin k (Nat.lt_of_succ_lt_succ hk)
        · rintro ⟨hin, hout⟩
          exact ⟨fun k hk => hin (k + 1) (Nat.succ_lt_succ hk), hout⟩

theorem runLength_eq {l word tail : List α} {i : Nat} (h : l.drop i = word ++ tail) (hword : ∀ c ∈ word, p c = true)
    (htail : ∀ c ∈ tail.head?, p c = false) : runLength p l i = word.length := by
  have hstop : tail.takeWhile p = [] := by
    cases tail with
    | nil => rfl
    | cons c tail => exact List.takeWhile_cons_of_neg (by simp [htail c rfl])
  rw [runLength, h, List.takeWhile_append_of_pos hword, hstop, List.append_nil]

theorem mem_starts_cons {within : Bool} {off i : Nat} {c : α} {l : List α} :
    i ∈ starts p within off (c :: l) ↔
      i = off ∧ p c = true ∧ within = false ∨ i ∈ starts p (p c) (off + 1) l := by
  rw [starts]
  by_cases hstart : p c = true ∧ within = false
  · rw [if_pos (by simp [hstart]), List.mem_cons]
    simp [hstart]
  · have hno : (p c && !within) = false := Bool.eq_false_iff.mpr fun h => hstart (by simpa using h)
    rw [hno, if_neg (by simp)]
    exact (or_iff_right fun h => hstart h.2).symm

/-- A segment starts where the predicate begins to hold. -/
theorem mem_starts {within : Bool} {off i : Nat} {l : List α} :
    i ∈ starts p within off l ↔
      ∃ k, i = off + k ∧ (∃ c, l[k]? = some c ∧ p c = true) ∧ (k = 0 → within = false) ∧
        ∀ j c, k = j + 1 → l[j]? = some c → p c = false := by
  induction l generalizing within off with
  | nil => simp [starts]
  | cons a l ih =>
    rw [mem_starts_cons, ih]
    constructor
    · rintro (⟨rfl, ha, hwithin⟩ | ⟨k, rfl, hin, hfirst, hbefore⟩)
      · exact ⟨0, rfl, ⟨a, rfl, ha⟩, fun _ => hwithin, fun j c hj => absurd hj (Nat.succ_ne_zero j).symm⟩
      · refine ⟨k + 1, by rw [Nat.add_assoc, Nat.add_comm 1], hin, fun h => absurd h (Nat.succ_ne_zero k), ?_⟩
        intro j c hj hc
        obtain rfl : k = j := Nat.succ.inj hj
        cases k with
        | zero => exact Option.some.inj hc ▸ hfirst rfl
        | succ k => exact hbefore k c rfl hc
    · rintro ⟨k, rfl, hin, hfirst, hbefore⟩
      cases k with
      | zero =>
        obtain ⟨c, hc, hpc⟩ := hin
        obtain rfl : a = c := Option.some.inj hc
        exact .inl ⟨rfl, hpc, hfirst rfl⟩
      | succ k =>
        refine .inr ⟨k, by rw [Nat.add_assoc, Nat.add_comm 1], hin, fun h => ?_, fun j c hj hc => ?_⟩
        · exact hbefore 0 a (by rw [h]) rfl
        · exact hbefore (j + 1) c (by rw [hj]) hc

theorem starts_pairwise (within : Bool) (off : Nat) (l : List α) :
    (starts p within off l).Pairwise (· < ·) := by
  induction l generalizing within off with
  | nil => exact List.Pairwise.nil
  | cons c l ih =>
    rw [starts]
    split
    · refine List.pairwise_cons.mpr ⟨fun i hi => ?_, ih _ _⟩
      obtain ⟨k, rfl, -⟩ := mem_starts.mp hi
      exact Nat.lt_of_lt_of_le (Nat.lt_succ_self off) (Nat.le_add_right _ k)
    · exact ih _ _

/-- The segments of the list are exactly those that are found. -/
theorem mem_segments {l : List α} {start len : Nat} :
    (start, len) ∈ segments p l ↔ IsSegment p l start len := by
  have hmem : (start, len) ∈ segments p l ↔ start ∈ starts p false 0 l ∧ runLength p l start = len := by
    simp [segments]
  have hlength : runLength p l start = len ↔
      (∀ k < len, ∃ c, l[start + k]? = some c ∧ p c = true) ∧ ∀ c, l[start + len]? = some c → p c = false := by
    simp only [runLength, takeWhile_length_eq_iff, List.getElem?_drop]
  have hstart : start ∈ starts p false 0 l ↔
      (∃ c, l[start]? = some c ∧ p c = true) ∧ ∀ j c, start = j + 1 → l[j]? = some c → p c = false := by
    simp [mem_starts]
  rw [hmem, hlength, hstart]
  constructor
  · rintro ⟨⟨⟨c, hc, hpc⟩, hbefore⟩, hin, hafter⟩
    refine ⟨Nat.pos_of_ne_zero fun hzero => ?_, hin, hbefore, hafter⟩
    rw [hafter c (by rwa [hzero])] at hpc
    cases hpc
  · rintro ⟨hpos, hin, hbefore, hafter⟩
    exact ⟨⟨hin 0 hpos, hbefore⟩, hin, hafter⟩

theorem segments_pairwise (l : List α) : (segments p l).Pairwise fun r r' => r.1 < r'.1 :=
  List.pairwise_map.mpr (starts_pairwise false 0 l)

/-! ## Step by step -/

/-- Elements outside of segments are skipped. -/
theorem starts_skip {l₁ : List α} (l : List α) (off : Nat) (h : ∀ c ∈ l₁, p c = false) :
    starts p false off (l₁ ++ l) = starts p false (off + l₁.length) l := by
  induction l₁ generalizing off with
  | nil => rfl
  | cons c l₁ ih =>
    obtain ⟨hc, hrest⟩ := List.forall_mem_cons.mp h
    rw [List.cons_append, starts, hc, if_neg (by simp), ih _ hrest, List.length_cons, Nat.add_assoc,
      Nat.add_comm 1]

theorem starts_within {word : List α} (l : List α) (off : Nat) (h : ∀ c ∈ word, p c = true) :
    starts p true off (word ++ l) = starts p true (off + word.length) l := by
  induction word generalizing off with
  | nil => rfl
  | cons c word ih =>
    obtain ⟨hc, hrest⟩ := List.forall_mem_cons.mp h
    rw [List.cons_append, starts, hc, if_neg (by simp), ih _ hrest, List.length_cons, Nat.add_assoc,
      Nat.add_comm 1]

/-- A segment, up to the first element behind it or to the end of the list. -/
theorem starts_segment {word tail : List α} (off : Nat) (hne : word ≠ []) (hword : ∀ c ∈ word, p c = true)
    (htail : ∀ c ∈ tail.head?, p c = false) :
    starts p false off (word ++ tail) = off :: starts p false (off + word.length + 1) tail.tail := by
  cases word with
  | nil => exact absurd rfl hne
  | cons c word =>
    obtain ⟨hc, hrest⟩ := List.forall_mem_cons.mp hword
    rw [List.cons_append, starts, hc, if_pos (by simp), starts_within _ _ hrest, List.length_cons, Nat.add_assoc off,
      Nat.add_comm 1]
    congr 1
    cases tail with
    | nil => rfl
    | cons e tail =>
      have he : p e = false := htail e rfl
      rw [starts, he, if_neg (by simp)]
      rfl

end Segments
