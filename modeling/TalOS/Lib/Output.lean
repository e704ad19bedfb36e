-- SUMMARY: Output with a limit: what is left of a text when only so many cells may be written.
import TalOS.Lib.Memory

/-!
# Bounded output

An `Output` is a sink together with the number of cells already written to it.
`put` appends a text up to a limit, of which one cell is kept free for a
terminator. Appending two texts is appending their concatenation, so what a
series of bounded prints leaves is the truncation of the whole text.
-/

namespace Bounded

open Memory

variable {σ α : Type}

/-- A place cells can be copied to, at a given offset. Copying two texts one
behind the other is copying their concatenation. -/
structure Sink (σ α : Type) where
  copy : σ → Nat → List α → σ
  copy_nil : ∀ s start, copy s start [] = s
  copy_append : ∀ s start l l',
    copy (copy s start l) (start + l.length) l' = copy s start (l ++ l')

/-- A sink and the number of cells written to it so far. -/
structure Output (σ : Type) where
  sink : σ
  written : Nat

/-- Memory from a fixed base address on. -/
def memory : Sink (Nat → α) α := ⟨writeAt, writeAt_nil, writeAt_append⟩

/-- The list of all cells in the order in which they were copied. -/
def recorder : Sink (List α) α where
  copy s _ l := s ++ l
  copy_nil s _ := List.append_nil s
  copy_append s _ l l' := List.append_assoc s l l'

/-- Append `l` as far as `limit` allows, one cell kept free. -/
def Output.put (S : Sink σ α) (limit : Nat) (o : Output σ) (l : List α) : Output σ :=
  { sink := S.copy o.sink o.written (l.take (limit - 1 - o.written))
    written := o.written + (l.take (limit - 1 - o.written)).length }

variable {S : Sink σ α} {limit : Nat} {o : Output σ}

@[simp] theorem Output.put_nil : o.put S limit ([] : List α) = o := by
  simp [put, S.copy_nil]

theorem Output.put_written (l : List α) :
    (o.put S limit l).written = o.written + min (limit - 1 - o.written) l.length := by
  rw [put, List.length_take]

theorem Output.put_written_le (l : List α) (h : o.written ≤ limit - 1) :
    (o.put S limit l).written ≤ limit - 1 := by
  rw [put_written]
  omega

/-- A text that fits is written completely. -/
theorem Output.put_of_le {l : List α} (h : l.length ≤ limit - 1 - o.written) :
    o.put S limit l = ⟨S.copy o.sink o.written l, o.written + l.length⟩ := by
  rw [put, List.take_of_length_le h]

/-- A text that does not fit fills the output up. -/
theorem Output.put_written_of_ge {l : List α} (h : o.written ≤ limit - 1)
    (hl : limit - 1 - o.written ≤ l.length) : (o.put S limit l).written = limit - 1 := by
  rw [put_written, Nat.min_eq_left hl]
  exact Nat.add_sub_of_le h

/-- Nothing is added to a full output. -/
theorem Output.put_of_full (l : List α) (h : o.written = limit - 1) : o.put S limit l = o := by
  rw [put, h, Nat.sub_self, List.take_zero, S.copy_nil, List.length_nil, Nat.add_zero, ← h]

/-- Appending in two steps is appending at once. -/
theorem Output.put_append (l l' : List α) :
    (o.put S limit l).put S limit l' = o.put S limit (l ++ l') := by
  have hroom : limit - 1 - (o.put S limit l).written = limit - 1 - o.written - l.length := by
    rw [put_written]
    omega
  have htake : (l ++ l').take (limit - 1 - o.written) =
      l.take (limit - 1 - o.written) ++ l'.take (limit - 1 - o.written - l.length) :=
    List.take_append
  have hput : (o.put S limit l).put S limit l' =
      ⟨S.copy (o.put S limit l).sink (o.put S limit l).written
          (l'.take (limit - 1 - (o.put S limit l).written)),
        (o.put S limit l).written +
          (l'.take (limit - 1 - (o.put S limit l).written)).length⟩ := rfl
  rw [hput, hroom]
  simp only [put, htake, S.copy_append, Nat.add_assoc, List.length_append]

/-- What is appended once the output is full does not matter. -/
theorem Output.put_append_of_full {l : List α} (l' : List α)
    (h : (o.put S limit l).written = limit - 1) :
    o.put S limit (l ++ l') = o.put S limit l := by
  rw [← put_append, put_of_full l' h]

end Bounded
