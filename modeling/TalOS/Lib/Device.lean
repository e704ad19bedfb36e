-- SUMMARY: Programs that read the registers of a device: what they have read, and where they wait for an answer.
import Mathlib.Tactic.Common

/-!
# Reading a device

A device may answer a read with anything, so a run of a program is determined by the
answers it gets, one after the other. A program that has no answer left waits in its
read; what it has read up to there is kept.
-/

namespace Device

variable {Reg Value α β : Type}

/-- The answers still to come, and the reads so far with what they were answered. -/
structure Line (Reg Value : Type) where
  answers : List Value
  reads : List (Reg × Value)
  deriving Repr, DecidableEq

/-- A program that reads registers: it ends with a result, or still waits for an answer (`.error`). -/
abbrev Reader (Reg Value : Type) := EStateM Unit (Line Reg Value)

def read (reg : Reg) : Reader Reg Value Value := fun line =>
  match line.answers with
  | [] => .error () line
  | v :: answers => .ok v ⟨answers, line.reads ++ [(reg, v)]⟩

def pollFrom (reg : Reg) (done : Value → Bool) :
    List Value → List (Reg × Value) → EStateM.Result Unit (Line Reg Value) Unit
  | [], reads => .error () ⟨[], reads⟩
  | v :: answers, reads =>
    if done v then .ok () ⟨answers, reads ++ [(reg, v)]⟩ else pollFrom reg done answers (reads ++ [(reg, v)])

/-- Read a register until the answer passes a test. -/
def poll (reg : Reg) (done : Value → Bool) : Reader Reg Value Unit := fun line =>
  pollFrom reg done line.answers line.reads

/-- What the program has read when it has had these answers. -/
def readsOn (p : Reader Reg Value α) (answers : List Value) : List (Reg × Value) :=
  match p ⟨answers, []⟩ with
  | .ok _ line => line.reads
  | .error _ line => line.reads

/-- With the answers of these reads the program makes exactly them, and ends with `a`. -/
def Ends (p : Reader Reg Value α) (reads : List (Reg × Value)) (a : α) : Prop :=
  ∀ answers before, p ⟨reads.map Prod.snd ++ answers, before⟩ = .ok a ⟨answers, before ++ reads⟩

/-- What the program reads, and its result, depend on the answers alone. -/
def Determined (p : Reader Reg Value α) : Prop :=
  ∀ ⦃line line' a⦄, p line = .ok a line' →
    ∃ reads, line.answers = reads.map Prod.snd ++ line'.answers ∧ line'.reads = line.reads ++ reads ∧
      Ends p reads a

variable {p : Reader Reg Value α} {f : α → Reader Reg Value β} {line line' : Line Reg Value}

theorem bind_eq_ok {b : β} :
    (p >>= f) line = .ok b line' ↔ ∃ a line₁, p line = .ok a line₁ ∧ f a line₁ = .ok b line' := by
  show EStateM.bind p f line = _ ↔ _
  unfold EStateM.bind
  split
  case h_1 a line₁ hp => simp [hp]
  case h_2 hp => simp [hp]

theorem bind_of_ok {a : α} {line₁ : Line Reg Value} (h : p line = .ok a line₁) :
    (p >>= f) line = f a line₁ := by
  show EStateM.bind p f line = _
  simp only [EStateM.bind, h]

theorem bind_of_error (h : p line = .error () line') : (p >>= f) line = .error () line' := by
  show EStateM.bind p f line = _
  simp only [EStateM.bind, h]

theorem pure_eq_ok {a b : α} :
    (pure a : Reader Reg Value α) line = .ok b line' ↔ a = b ∧ line = line' := by
  show EStateM.Result.ok a line = _ ↔ _
  simp

theorem Ends.bind {reads reads' : List (Reg × Value)} {a : α} {b : β} (hp : Ends p reads a)
    (hf : Ends (f a) reads' b) : Ends (p >>= f) (reads ++ reads') b := by
  intro answers before
  rw [bind_eq_ok, List.map_append, List.append_assoc, ← List.append_assoc before]
  exact ⟨a, _, hp _ before, hf answers _⟩

theorem Determined.pure (a : α) : Determined (Pure.pure a : Reader Reg Value α) := by
  intro line line' b h
  obtain ⟨rfl, rfl⟩ := pure_eq_ok.mp h
  refine ⟨[], rfl, (List.append_nil _).symm, fun answers before => ?_⟩
  rw [List.append_nil]
  rfl

theorem Determined.read (reg : Reg) : Determined (read reg : Reader Reg Value Value) := by
  rintro ⟨answers, reads⟩ line' a h
  cases answers with
  | nil => cases h
  | cons v answers =>
    cases h
    exact ⟨[(reg, a)], rfl, rfl, fun _ _ => rfl⟩

theorem Determined.bind (hp : Determined p) (hf : ∀ a, Determined (f a)) : Determined (p >>= f) := by
  intro line line' b h
  obtain ⟨a, line₁, ha, hb⟩ := bind_eq_ok.mp h
  obtain ⟨reads, hanswers, hreads, hends⟩ := hp ha
  obtain ⟨reads', hanswers', hreads', hends'⟩ := hf a hb
  refine ⟨reads ++ reads', ?_, ?_, hends.bind hends'⟩
  · rw [hanswers, hanswers', List.map_append, List.append_assoc]
  · rw [hreads', hreads, List.append_assoc]

/-! ## Polling -/

variable {reg : Reg} {done : Value → Bool}

/-- Polling reads nothing else. -/
theorem poll_ok (h : poll reg done line = .ok () line') :
    ∃ reads, line'.reads = line.reads ++ reads ∧ ∀ r ∈ reads, r.1 = reg := by
  obtain ⟨answers, before⟩ := line
  change pollFrom reg done answers before = .ok () line' at h
  induction answers generalizing before with
  | nil => cases h
  | cons v answers ih =>
    rw [pollFrom] at h
    split at h
    case isTrue =>
      cases h
      exact ⟨[(reg, v)], rfl, by simp⟩
    case isFalse =>
      obtain ⟨reads, hreads, hreg⟩ := ih _ h
      refine ⟨(reg, v) :: reads, ?_, ?_⟩
      · rw [hreads, List.append_assoc]
        rfl
      · exact List.forall_mem_cons.mpr ⟨rfl, hreg⟩

/-- While no answer passes the test, polling goes on. -/
theorem poll_waits {answers : List Value} (before : List (Reg × Value)) (h : ∀ v ∈ answers, done v = false) :
    poll reg done ⟨answers, before⟩ = .error () ⟨[], before ++ answers.map (reg, ·)⟩ := by
  show pollFrom reg done answers before = _
  induction answers generalizing before with
  | nil => simp [pollFrom]
  | cons v answers ih =>
    obtain ⟨hv, hrest⟩ := List.forall_mem_cons.mp h
    rw [pollFrom, if_neg (by simp [hv]), ih _ hrest]
    simp

/-- Polling ends with the first answer that passes the test. -/
theorem poll_first {answers rest : List Value} {v : Value} (before : List (Reg × Value))
    (h : ∀ w ∈ answers, done w = false) (hv : done v = true) :
    poll reg done ⟨answers ++ v :: rest, before⟩ = .ok () ⟨rest, before ++ (answers ++ [v]).map (reg, ·)⟩ := by
  show pollFrom reg done (answers ++ v :: rest) before = _
  induction answers generalizing before with
  | nil =>
    rw [List.nil_append, pollFrom, if_pos hv]
    rfl
  | cons w answers ih =>
    obtain ⟨hw, hrest⟩ := List.forall_mem_cons.mp h
    rw [List.cons_append, pollFrom, if_neg (by simp [hw]), ih _ hrest]
    simp

end Device
