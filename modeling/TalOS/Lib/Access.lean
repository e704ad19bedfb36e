-- SUMMARY: Reading bytes and little-endian values from a 32-bit memory of which only a part may be read.
import TalOS.Lib.MachineInt
import Mathlib.Data.List.Basic
import Mathlib.Tactic.Common

/-!
# Checked reads

A memory gives a byte at every address and says which addresses may be read.
A read outside is undefined and ends the computation, so that "reads only inside
a range" is "has a result although only the range may be read". Addresses wrap
at 2^32. The other way not to have a result is to run out of fuel.
-/

namespace Access

open MachineInt

/-- Why a computation has no result. -/
inductive Stop where
  | undefined
  | outOfFuel
  deriving Repr, DecidableEq

structure Mem where
  byte : Nat → UInt8
  readable : Nat → Bool

/-- Everything may be read. -/
def Mem.all (byte : Nat → UInt8) : Mem := ⟨byte, fun _ => true⟩

/-- Address `a` is one of the `length` addresses from `start` on, which may wrap. -/
def inRange (start length a : Nat) : Bool := decide (sub32 (u32 a) start < length)

/-- Only the `length` bytes from `start` on may be read. -/
def Mem.only (byte : Nat → UInt8) (start length : Nat) : Mem := ⟨byte, inRange start length⟩

/-- The value of the `n` bytes from address `a` on. -/
def leValue (byte : Nat → UInt8) (a : Nat) : Nat → Nat
  | 0 => 0
  | n + 1 => (byte (u32 a)).toNat + 256 * leValue byte (a + 1) n

/-- The `n` bytes from address `a` on may be read. -/
def Mem.Readable (m : Mem) (a n : Nat) : Prop := ∀ i < n, m.readable (u32 (a + i)) = true

instance (m : Mem) (a n : Nat) : Decidable (m.Readable a n) :=
  inferInstanceAs (Decidable (∀ i < n, m.readable (u32 (a + i)) = true))

/-- Read an unsigned value of `n` bytes. -/
def load (m : Mem) (a n : Nat) : Except Stop Nat :=
  if m.Readable a n then .ok (leValue m.byte a n) else .error .undefined

/-- Read `n` bytes. -/
def loadBytes (m : Mem) (a n : Nat) : Except Stop (List UInt8) :=
  if m.Readable a n then .ok ((List.range n).map fun i => m.byte (u32 (a + i))) else .error .undefined

variable {m : Mem} {a n : Nat}

theorem load_eq_ok {v : Nat} : load m a n = .ok v ↔ m.Readable a n ∧ leValue m.byte a n = v := by
  unfold load
  split
  · next h => simp [h]
  · next h => simp [h]

theorem load_of_readable (h : m.Readable a n) : load m a n = .ok (leValue m.byte a n) := if_pos h

theorem loadBytes_of_readable (h : m.Readable a n) :
    loadBytes m a n = .ok ((List.range n).map fun i => m.byte (u32 (a + i))) := if_pos h

/-- The first byte of a range, and the others. -/
theorem Mem.Readable.succ (h : m.Readable a (n + 1)) : m.readable (u32 a) = true ∧ m.Readable (a + 1) n := by
  refine ⟨h 0 (Nat.zero_lt_succ n), fun i hi => ?_⟩
  rw [Nat.add_assoc, Nat.add_comm 1]
  exact h (i + 1) (Nat.succ_lt_succ hi)

theorem readable_all (byte : Nat → UInt8) (a n : Nat) : (Mem.all byte).Readable a n := fun _ _ => rfl

@[simp] theorem load_all (byte : Nat → UInt8) (a n : Nat) :
    load (Mem.all byte) a n = .ok (leValue byte a n) := load_of_readable (readable_all byte a n)

@[simp] theorem loadBytes_all (byte : Nat → UInt8) (a n : Nat) :
    loadBytes (Mem.all byte) a n = .ok ((List.range n).map fun i => byte (u32 (a + i))) :=
  loadBytes_of_readable (readable_all byte a n)

theorem u32_add_mod (a b : Nat) : u32 (u32 a + b) = u32 (a + b) := Nat.mod_add_mod a (2 ^ 32) b

/-- A read through a wrapped pointer is a read through the pointer. -/
theorem readable_u32 (m : Mem) (a d n : Nat) : m.Readable (u32 a + d) n ↔ m.Readable (a + d) n := by
  refine forall_congr' fun i => forall_congr' fun _ => ?_
  rw [Nat.add_assoc, u32_add_mod, Nat.add_assoc]

theorem leValue_lt (byte : Nat → UInt8) (a n : Nat) : leValue byte a n < 256 ^ n := by
  induction n generalizing a with
  | zero => exact Nat.one_pos
  | succ n ih =>
    have hbyte := (byte (u32 a)).toNat_lt
    have hrest := ih (a + 1)
    rw [leValue, Nat.pow_succ]
    omega

/-- An address given by its distance from the start of a range. -/
theorem inRange_add (start length d : Nat) :
    inRange start length (u32 (start + d)) = decide (u32 d < length) := by
  have hsub : sub32 (u32 (u32 (start + d))) start = u32 d := by
    unfold sub32 u32
    omega
  rw [inRange, hsub]

theorem leValue_congr {byte : Nat → UInt8} {a b : Nat} (h : u32 a = u32 b) (n : Nat) :
    leValue byte a n = leValue byte b n := by
  induction n generalizing a b with
  | zero => rfl
  | succ n ih =>
    have hnext : u32 (a + 1) = u32 (b + 1) := by
      rw [← u32_add_mod a, ← u32_add_mod b, h]
    rw [leValue, leValue, h, ih hnext]

/-- The value of bytes that are stored as a list. -/
def leBytes : List UInt8 → Nat
  | [] => 0
  | b :: l => b.toNat + 256 * leBytes l

/-- The `n` bytes of a value. -/
def toLeBytes : Nat → Nat → List UInt8
  | 0, _ => []
  | n + 1, v => UInt8.ofNat v :: toLeBytes n (v / 256)

@[simp] theorem toLeBytes_length (n v : Nat) : (toLeBytes n v).length = n := by
  induction n generalizing v with
  | zero => rfl
  | succ n ih => rw [toLeBytes, List.length_cons, ih]

theorem leBytes_toLeBytes (n v : Nat) : leBytes (toLeBytes n v) = v % 256 ^ n := by
  induction n generalizing v with
  | zero => rw [Nat.pow_zero, Nat.mod_one, toLeBytes, leBytes]
  | succ n ih =>
    have hbyte : (UInt8.ofNat v).toNat = v % 256 := UInt8.toNat_ofNat'
    rw [toLeBytes, leBytes, ih, hbyte, Nat.pow_succ, Nat.mul_comm _ 256, Nat.mod_mul]

theorem toLeBytes_leBytes (l : List UInt8) : toLeBytes l.length (leBytes l) = l := by
  induction l with
  | nil => rfl
  | cons b l ih =>
    have hb := b.toNat_lt
    have hbyte : UInt8.ofNat (b.toNat + 256 * leBytes l) = b := by
      apply UInt8.toNat_inj.mp
      rw [UInt8.toNat_ofNat', Nat.add_mul_mod_self_left]
      exact Nat.mod_eq_of_lt hb
    have hrest : (b.toNat + 256 * leBytes l) / 256 = leBytes l := by
      rw [Nat.add_mul_div_left _ _ (by decide), Nat.div_eq_of_lt hb, Nat.zero_add]
    rw [List.length_cons, leBytes, toLeBytes, hbyte, hrest, ih]

theorem leValue_eq_leBytes (byte : Nat → UInt8) (a n : Nat) :
    leValue byte a n = leBytes ((List.range n).map fun i => byte (u32 (a + i))) := by
  induction n generalizing a with
  | zero => rfl
  | succ n ih =>
    rw [leValue, ih, List.range_succ_eq_map, List.map_cons, List.map_map, leBytes, Nat.add_zero]
    congr 3
    refine List.map_congr_left fun i _ => ?_
    rw [Function.comp_apply, Nat.succ_eq_add_one, Nat.add_assoc, Nat.add_comm 1]

/-- The bytes `l` stand in memory from address `a` on. -/
def StoredAt (byte : Nat → UInt8) (a : Nat) (l : List UInt8) : Prop :=
  (List.range l.length).map (fun i => byte (u32 (a + i))) = l

theorem storedAt_append {byte : Nat → UInt8} {a : Nat} {l l' : List UInt8} :
    StoredAt byte a (l ++ l') ↔ StoredAt byte a l ∧ StoredAt byte (a + l.length) l' := by
  have hsplit : (List.range (l ++ l').length).map (fun i => byte (u32 (a + i))) =
      (List.range l.length).map (fun i => byte (u32 (a + i))) ++
        (List.range l'.length).map (fun i => byte (u32 (a + l.length + i))) := by
    rw [List.length_append, List.range_add, List.map_append, List.map_map]
    congr 2
    funext i
    rw [Function.comp_apply, Nat.add_assoc]
  rw [StoredAt, hsplit]
  constructor
  · intro h
    exact List.append_inj h (by simp)
  · rintro ⟨h, h'⟩
    exact congrArg₂ _ h h'

theorem leValue_of_storedAt {byte : Nat → UInt8} {a n : Nat} {l : List UInt8} (h : StoredAt byte a l)
    (hn : n ≤ l.length) : leValue byte a n = leBytes (l.take n) := by
  have htake := congrArg (List.take n) h
  rw [← List.map_take, List.take_range, Nat.min_eq_left hn] at htake
  rw [leValue_eq_leBytes, htake]

/-! ## Sequencing -/

@[simp] theorem ok_bind {α β : Type} (a : α) (f : α → Except Stop β) : (Except.ok a >>= f) = f a := rfl

theorem bind_eq_ok {α β : Type} {x : Except Stop α} {f : α → Except Stop β} {b : β} :
    (x >>= f) = .ok b ↔ ∃ a, x = .ok a ∧ f a = .ok b := by
  cases x with
  | error e => exact iff_of_false nofun (fun ⟨_, h, _⟩ => nomatch h)
  | ok a => exact ⟨fun h => ⟨a, rfl, h⟩, fun ⟨_, h, hf⟩ => Except.ok.inj h ▸ hf⟩

theorem return_eq_ok {α : Type} {a b : α} : (return a : Except Stop α) = .ok b ↔ a = b :=
  ⟨Except.ok.inj, congrArg _⟩

theorem map_eq_ok {α β : Type} {x : Except Stop α} {f : α → β} {b : β} :
    f <$> x = .ok b ↔ ∃ a, x = .ok a ∧ f a = b := by
  cases x with
  | error e => exact iff_of_false nofun (fun ⟨_, h, _⟩ => nomatch h)
  | ok a => exact ⟨fun h => ⟨a, rfl, Except.ok.inj h⟩, fun ⟨_, h, hf⟩ => Except.ok.inj h ▸ congrArg _ hf⟩

end Access
