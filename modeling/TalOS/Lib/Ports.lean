-- SUMMARY: Drivers that read and write ports: their accesses in order, their loops, and where they wait for an answer.
import Mathlib.Tactic.Common

/-!
# Drivers

A driver reads ports and writes them. What it reads may be anything, so a run of it is
determined by the answers to its reads. A driver that has no answer left waits in that
read; its accesses up to there are kept. `Runs` and `Waits` are the two ways in which a
driver can use up the answers of a list of accesses.
-/

namespace Ports

variable {Port Value σ α β : Type}

/-- One access with the value that was read or written. -/
inductive Access (Port Value : Type) where
  | input (port : Port) (value : Value)
  | output (port : Port) (value : Value)
  deriving Repr, DecidableEq

/-- The answers still to come, and the accesses so far. -/
structure Bus (Port Value : Type) where
  answers : List Value
  accesses : List (Access Port Value)
  deriving Repr, DecidableEq

/-- A program on the bus: it ends with a result, or still waits for an answer (`.error`). -/
abbrev Driver (Port Value : Type) := EStateM Unit (Bus Port Value)

def inp (port : Port) : Driver Port Value Value := fun bus =>
  match bus.answers with
  | [] => .error () bus
  | v :: answers => .ok v ⟨answers, bus.accesses ++ [.input port v]⟩

def outp (port : Port) (value : Value) : Driver Port Value Unit := fun bus =>
  .ok () { bus with accesses := bus.accesses ++ [.output port value] }

/-- What is left to do after a turn of a loop. -/
def afterTurn (again : σ → Driver Port Value α) : σ ⊕ α → Driver Port Value α
  | .inl s => again s
  | .inr a => pure a

def loopFrom (body : σ → Driver Port Value (σ ⊕ α)) : Nat → σ → Driver Port Value α
  | 0, _ => fun bus => .error () bus
  | fuel + 1, s => body s >>= afterTurn (loopFrom body fuel)

/-- Repeat a turn until it gives a result. A turn that goes on has read something, so there are no more
turns than answers. -/
def loop (body : σ → Driver Port Value (σ ⊕ α)) (s : σ) : Driver Port Value α := fun bus =>
  loopFrom body (bus.answers.length + 1) s bus

def pollTurn (port : Port) (done : Value → Bool) (_ : Unit) : Driver Port Value (Unit ⊕ Value) := do
  let v ← inp port
  pure (if done v then .inr v else .inl ())

/-- Read a port until the answer passes a test, and give that answer. -/
def poll (port : Port) (done : Value → Bool) : Driver Port Value Value := loop (pollTurn port done) ()

/-! ## Accesses -/

def Access.answer? : Access Port Value → Option Value
  | .input _ v => some v
  | .output _ _ => none

/-- The answers that the reads among the accesses had. -/
def answersOf (t : List (Access Port Value)) : List Value := t.filterMap Access.answer?

/-- What was read from one port. -/
def inputsFrom [DecidableEq Port] (port : Port) (t : List (Access Port Value)) : List Value :=
  t.filterMap fun
    | .input p v => if p = port then some v else none
    | .output _ _ => none

/-- What was written to one port. -/
def outputsTo [DecidableEq Port] (port : Port) (t : List (Access Port Value)) : List Value :=
  t.filterMap fun
    | .input _ _ => none
    | .output p v => if p = port then some v else none

section Accesses

variable {port p : Port} {v : Value} {t t' : List (Access Port Value)}

@[simp] theorem answersOf_nil : answersOf ([] : List (Access Port Value)) = [] := rfl
@[simp] theorem answersOf_append : answersOf (t ++ t') = answersOf t ++ answersOf t' := List.filterMap_append
@[simp] theorem answersOf_input : answersOf (.input port v :: t) = v :: answersOf t := rfl
@[simp] theorem answersOf_output : answersOf (.output port v :: t) = answersOf t := rfl

variable [DecidableEq Port]

@[simp] theorem inputsFrom_nil : inputsFrom port ([] : List (Access Port Value)) = [] := rfl
@[simp] theorem inputsFrom_append : inputsFrom port (t ++ t') = inputsFrom port t ++ inputsFrom port t' :=
  List.filterMap_append
@[simp] theorem inputsFrom_output : inputsFrom port (.output p v :: t) = inputsFrom port t := rfl

@[simp] theorem inputsFrom_input :
    inputsFrom port (.input p v :: t) = if p = port then v :: inputsFrom port t else inputsFrom port t := by
  by_cases h : p = port <;> simp [inputsFrom, h]

@[simp] theorem outputsTo_nil : outputsTo port ([] : List (Access Port Value)) = [] := rfl
@[simp] theorem outputsTo_append : outputsTo port (t ++ t') = outputsTo port t ++ outputsTo port t' :=
  List.filterMap_append
@[simp] theorem outputsTo_input : outputsTo port (.input p v :: t) = outputsTo port t := rfl

@[simp] theorem outputsTo_output :
    outputsTo port (.output p v :: t) = if p = port then v :: outputsTo port t else outputsTo port t := by
  by_cases h : p = port <;> simp [outputsTo, h]

end Accesses

/-- What is written, one value after the other, makes of the state of a device. -/
def replay (write : Port → Value → σ → σ) : List (Access Port Value) → σ → σ
  | [], s => s
  | .input _ _ :: t, s => replay write t s
  | .output port v :: t, s => replay write t (write port v s)

/-! ## Runs of a driver -/

/-- With the answers of these accesses the driver makes exactly them, and ends with `a`. -/
def Runs (p : Driver Port Value α) (t : List (Access Port Value)) (a : α) : Prop :=
  ∀ answers before, p ⟨answersOf t ++ answers, before⟩ = .ok a ⟨answers, before ++ t⟩

/-- With the answers of these accesses and no other the driver makes exactly them, and waits. -/
def Waits (p : Driver Port Value α) (t : List (Access Port Value)) : Prop :=
  ∀ before, p ⟨answersOf t, before⟩ = .error () ⟨[], before ++ t⟩

/-- The answers alone determine what the driver does. -/
structure Determined (p : Driver Port Value α) : Prop where
  ok : ∀ {bus a bus'}, p bus = .ok a bus' →
    ∃ t, bus.answers = answersOf t ++ bus'.answers ∧ bus'.accesses = bus.accesses ++ t ∧ Runs p t a
  error : ∀ {bus e bus'}, p bus = .error e bus' →
    ∃ t, bus.answers = answersOf t ∧ bus' = ⟨[], bus.accesses ++ t⟩ ∧ Waits p t

variable {p : Driver Port Value α} {f : α → Driver Port Value β} {bus bus' : Bus Port Value}
  {t t' : List (Access Port Value)} {a : α} {b : β}

theorem bind_eq_ok :
    (p >>= f) bus = .ok b bus' ↔ ∃ a bus₁, p bus = .ok a bus₁ ∧ f a bus₁ = .ok b bus' := by
  show EStateM.bind p f bus = _ ↔ _
  unfold EStateM.bind
  split
  case h_1 a bus₁ hp => simp [hp]
  case h_2 hp => simp [hp]

theorem bind_eq_error {e : Unit} :
    (p >>= f) bus = .error e bus' ↔
      p bus = .error e bus' ∨ ∃ a bus₁, p bus = .ok a bus₁ ∧ f a bus₁ = .error e bus' := by
  show EStateM.bind p f bus = _ ↔ _
  unfold EStateM.bind
  split
  case h_1 a bus₁ hp => simp [hp]
  case h_2 hp => simp [hp]

theorem outp_bind_apply {port : Port} {v : Value} {g : Unit → Driver Port Value β} :
    (outp port v >>= g) bus = g () ⟨bus.answers, bus.accesses ++ [.output port v]⟩ := rfl

theorem inp_bind_eq_ok {port : Port} {g : Value → Driver Port Value β} :
    (inp port >>= g) bus = .ok b bus' ↔
      ∃ v answers, bus.answers = v :: answers ∧
        g v ⟨answers, bus.accesses ++ [.input port v]⟩ = .ok b bus' := by
  obtain ⟨answers, before⟩ := bus
  rw [bind_eq_ok]
  cases answers with
  | nil => simp [inp]
  | cons v answers => simp [inp]

theorem Runs.bind (hp : Runs p t a) (hf : Runs (f a) t' b) : Runs (p >>= f) (t ++ t') b := by
  intro answers before
  rw [bind_eq_ok, answersOf_append, List.append_assoc, ← List.append_assoc before]
  exact ⟨a, _, hp _ before, hf answers _⟩

theorem Runs.bind_waits (hp : Runs p t a) (hf : Waits (f a) t') : Waits (p >>= f) (t ++ t') := by
  intro before
  rw [bind_eq_error, answersOf_append, ← List.append_assoc before]
  exact .inr ⟨a, _, hp _ before, hf _⟩

theorem Waits.bind (hp : Waits p t) : Waits (p >>= f) t := fun before =>
  bind_eq_error.mpr (.inl (hp before))

/-- The answers of a run are the answers of its accesses, each used once. -/
theorem Determined.waits (hp : Determined p) {before : List (Access Port Value)}
    (h : p ⟨answersOf t, before⟩ = .error () ⟨[], before ++ t⟩) : Waits p t := by
  obtain ⟨t', -, hbus, hwaits⟩ := hp.error h
  injection hbus with _ haccesses
  rwa [List.append_cancel_left haccesses]

theorem runs_bind (hp : Determined p) (hf : ∀ a, Determined (f a)) :
    Runs (p >>= f) t b ↔ ∃ t₁ a t₂, Runs p t₁ a ∧ Runs (f a) t₂ b ∧ t = t₁ ++ t₂ := by
  constructor
  · intro h
    obtain ⟨a, bus₁, ha, hb⟩ := bind_eq_ok.mp (h [] [])
    obtain ⟨t₁, -, haccesses, hruns⟩ := hp.ok ha
    obtain ⟨t₂, -, haccesses', hruns'⟩ := (hf a).ok hb
    refine ⟨t₁, a, t₂, hruns, hruns', ?_⟩
    rw [haccesses] at haccesses'
    simpa using haccesses'
  · rintro ⟨t₁, a, t₂, h₁, h₂, rfl⟩
    exact h₁.bind h₂

theorem waits_bind (hp : Determined p) (hf : ∀ a, Determined (f a)) :
    Waits (p >>= f) t ↔
      Waits p t ∨ ∃ t₁ a t₂, Runs p t₁ a ∧ Waits (f a) t₂ ∧ t = t₁ ++ t₂ := by
  constructor
  · intro h
    have hrun := h []
    rw [bind_eq_error] at hrun
    rcases hrun with hwait | ⟨a, bus₁, ha, hwait⟩
    · exact .inl (hp.waits hwait)
    · obtain ⟨t₁, -, haccesses, hruns⟩ := hp.ok ha
      obtain ⟨t₂, -, hbus, hwaits⟩ := (hf a).error hwait
      refine .inr ⟨t₁, a, t₂, hruns, hwaits, ?_⟩
      injection hbus with _ haccesses'
      rw [haccesses] at haccesses'
      simpa using haccesses'
  · rintro (h | ⟨t₁, a, t₂, h₁, h₂, rfl⟩)
    · exact h.bind
    · exact h₁.bind_waits h₂

theorem Determined.pure (a : α) : Determined (Pure.pure a : Driver Port Value α) where
  ok {bus b bus'} h := by
    cases h
    exact ⟨[], by simp, by simp, fun answers before => by rw [List.append_nil]; rfl⟩
  error h := nomatch h

theorem runs_pure {b : α} : Runs (Pure.pure a : Driver Port Value α) t b ↔ t = [] ∧ a = b := by
  constructor
  · intro h
    have hrun := h [] []
    injection hrun with hab hbus
    injection hbus with _ haccesses
    exact ⟨by simpa using haccesses.symm, hab⟩
  · rintro ⟨rfl, rfl⟩ answers before
    rw [List.append_nil]
    rfl

theorem not_waits_pure : ¬ Waits (Pure.pure a : Driver Port Value α) t := fun h => nomatch h []

theorem Determined.inp (port : Port) : Determined (inp port : Driver Port Value Value) where
  ok {bus a bus'} h := by
    obtain ⟨answers, accesses⟩ := bus
    cases answers with
    | nil => cases h
    | cons v answers =>
      cases h
      exact ⟨[.input port a], rfl, rfl, fun _ _ => rfl⟩
  error {bus e bus'} h := by
    obtain ⟨answers, accesses⟩ := bus
    cases answers with
    | nil =>
      cases h
      exact ⟨[], rfl, by simp, fun before => by rw [List.append_nil]; rfl⟩
    | cons v answers => cases h

theorem runs_inp {port : Port} {v : Value} : Runs (inp port) t v ↔ t = [.input port v] := by
  constructor
  · intro h
    obtain ⟨t', -, haccesses, -⟩ := (Determined.inp port).ok (h [] [])
    have hrun := h [] []
    cases hanswers : answersOf t with
    | nil =>
      rw [hanswers] at hrun
      cases hrun
    | cons w answers =>
      rw [hanswers] at hrun
      injection hrun with hwv hbus
      injection hbus with _ htrace
      subst hwv
      simpa using htrace.symm
  · rintro rfl answers before
    rfl

theorem waits_inp {port : Port} : Waits (inp port : Driver Port Value Value) t ↔ t = [] := by
  constructor
  · intro h
    have hrun := h []
    cases hanswers : answersOf t with
    | nil =>
      rw [hanswers] at hrun
      injection hrun with _ hbus
      injection hbus with _ htrace
      simpa using htrace.symm
    | cons w answers =>
      rw [hanswers] at hrun
      cases hrun
  · rintro rfl before
    rw [List.append_nil]
    rfl

theorem Determined.outp (port : Port) (v : Value) : Determined (outp port v : Driver Port Value Unit) where
  ok {bus a bus'} h := by
    cases h
    exact ⟨[.output port v], rfl, rfl, fun _ _ => rfl⟩
  error h := nomatch h

theorem runs_outp {port : Port} {v : Value} {u : Unit} : Runs (outp port v) t u ↔ t = [.output port v] := by
  constructor
  · intro h
    have hrun := h [] []
    injection hrun with _ hbus
    injection hbus with _ htrace
    simpa using htrace.symm
  · rintro rfl answers before
    rfl

theorem not_waits_outp {port : Port} {v : Value} : ¬ Waits (outp port v) t := fun h => nomatch h []

theorem Determined.bind (hp : Determined p) (hf : ∀ a, Determined (f a)) : Determined (p >>= f) where
  ok {bus b bus'} h := by
    obtain ⟨a, bus₁, ha, hb⟩ := bind_eq_ok.mp h
    obtain ⟨t₁, hanswers, haccesses, hruns⟩ := hp.ok ha
    obtain ⟨t₂, hanswers', haccesses', hruns'⟩ := (hf a).ok hb
    exact ⟨t₁ ++ t₂, by simp [hanswers, hanswers'], by simp [haccesses', haccesses], hruns.bind hruns'⟩
  error {bus e bus'} h := by
    rcases bind_eq_error.mp h with hwait | ⟨a, bus₁, ha, hwait⟩
    · obtain ⟨t, hanswers, hbus, hwaits⟩ := hp.error hwait
      exact ⟨t, hanswers, hbus, hwaits.bind⟩
    · obtain ⟨t₁, hanswers, haccesses, hruns⟩ := hp.ok ha
      obtain ⟨t₂, hanswers', hbus, hwaits⟩ := (hf a).error hwait
      exact ⟨t₁ ++ t₂, by simp [hanswers, hanswers'], by simp [hbus, haccesses], hruns.bind_waits hwaits⟩

/-! ## Loops -/

/-- A turn that goes on reads something. -/
def ReadsOn (body : σ → Driver Port Value (σ ⊕ α)) : Prop :=
  ∀ s t s', Runs (body s) t (.inl s') → answersOf t ≠ []

section Loops

variable {body : σ → Driver Port Value (σ ⊕ α)} {s s' : σ}

theorem Determined.afterTurn {again : σ → Driver Port Value α} (h : ∀ s, Determined (again s)) (r : σ ⊕ α) :
    Determined (afterTurn again r) := by
  cases r with
  | inl s => exact h s
  | inr a => exact Determined.pure a

/-- After a turn that goes on there are fewer answers. -/
theorem ReadsOn.shorter (hreads : ReadsOn body) (hbody : ∀ s, Determined (body s))
    (h : body s bus = .ok (.inl s') bus') : bus'.answers.length < bus.answers.length := by
  obtain ⟨t, hanswers, -, hruns⟩ := (hbody s).ok h
  have hpos := List.length_pos_iff.mpr (hreads s t s' hruns)
  rw [hanswers, List.length_append]
  omega

/-- With more turns than answers left, one turn more or less makes no difference. -/
theorem loopFrom_succ (hreads : ReadsOn body) (hbody : ∀ s, Determined (body s)) (fuel : Nat) :
    ∀ (s : σ) (bus : Bus Port Value), bus.answers.length < fuel →
      loopFrom body (fuel + 1) s bus = loopFrom body fuel s bus := by
  induction fuel with
  | zero => exact fun _ _ h => absurd h (Nat.not_lt_zero _)
  | succ fuel ih =>
    intro s bus hfuel
    show EStateM.bind (body s) _ bus = EStateM.bind (body s) _ bus
    unfold EStateM.bind
    cases hturn : body s bus with
    | error e bus' => rfl
    | ok r bus' =>
      cases r with
      | inr a => rfl
      | inl s' =>
        have hshorter := hreads.shorter hbody hturn
        exact ih s' bus' (by omega)

theorem loopFrom_eq_loop (hreads : ReadsOn body) (hbody : ∀ s, Determined (body s)) {fuel : Nat}
    (s : σ) (bus : Bus Port Value) (hfuel : bus.answers.length < fuel) :
    loopFrom body fuel s bus = loop body s bus := by
  induction fuel with
  | zero => exact absurd hfuel (Nat.not_lt_zero _)
  | succ fuel ih =>
    by_cases hlast : bus.answers.length = fuel
    · rw [loop, hlast]
    · rw [loopFrom_succ hreads hbody fuel s bus (by omega)]
      exact ih (by omega)

/-- A loop is a turn and then the rest of the loop. -/
theorem loop_eq (hreads : ReadsOn body) (hbody : ∀ s, Determined (body s)) (s : σ) :
    loop body s = body s >>= afterTurn (loop body) := by
  funext bus
  show EStateM.bind (body s) _ bus = EStateM.bind (body s) _ bus
  unfold EStateM.bind
  cases hturn : body s bus with
  | error e bus' => rfl
  | ok r bus' =>
    cases r with
    | inr a => rfl
    | inl s' => exact loopFrom_eq_loop hreads hbody s' bus' (hreads.shorter hbody hturn)

theorem Determined.loop (hreads : ReadsOn body) (hbody : ∀ s, Determined (body s)) (s : σ) :
    Determined (loop body s) := by
  have hrun : ∀ n (s : σ) (bus : Bus Port Value), bus.answers.length < n →
      (∀ a bus', Ports.loop body s bus = .ok a bus' →
        ∃ t, bus.answers = answersOf t ++ bus'.answers ∧ bus'.accesses = bus.accesses ++ t ∧
          Runs (Ports.loop body s) t a) ∧
      ∀ e bus', Ports.loop body s bus = .error e bus' →
        ∃ t, bus.answers = answersOf t ∧ bus' = ⟨[], bus.accesses ++ t⟩ ∧ Waits (Ports.loop body s) t := by
    intro n
    induction n with
    | zero => exact fun _ _ h => absurd h (Nat.not_lt_zero _)
    | succ n ih =>
      intro s bus hn
      rw [loop_eq hreads hbody s]
      refine ⟨fun a bus' h => ?_, fun e bus' h => ?_⟩
      · obtain ⟨r, bus₁, hturn, hrest⟩ := bind_eq_ok.mp h
        obtain ⟨t₁, hanswers, haccesses, hruns⟩ := (hbody s).ok hturn
        cases r with
        | inr a' =>
          obtain ⟨t₂, hanswers', haccesses', hruns'⟩ := (Determined.pure a').ok hrest
          exact ⟨t₁ ++ t₂, by simp [hanswers, hanswers'], by simp [haccesses', haccesses], hruns.bind hruns'⟩
        | inl s' =>
          have hshorter := hreads.shorter hbody hturn
          obtain ⟨t₂, hanswers', haccesses', hruns'⟩ := (ih s' bus₁ (by omega)).1 a bus' hrest
          exact ⟨t₁ ++ t₂, by simp [hanswers, hanswers'], by simp [haccesses', haccesses], hruns.bind hruns'⟩
      · rcases bind_eq_error.mp h with hwait | ⟨r, bus₁, hturn, hwait⟩
        · obtain ⟨t, hanswers, hbus, hwaits⟩ := (hbody s).error hwait
          exact ⟨t, hanswers, hbus, hwaits.bind⟩
        · obtain ⟨t₁, hanswers, haccesses, hruns⟩ := (hbody s).ok hturn
          cases r with
          | inr a' => cases hwait
          | inl s' =>
            have hshorter := hreads.shorter hbody hturn
            obtain ⟨t₂, hanswers', hbus, hwaits⟩ := (ih s' bus₁ (by omega)).2 e bus' hwait
            exact ⟨t₁ ++ t₂, by simp [hanswers, hanswers'], by simp [hbus, haccesses],
              hruns.bind_waits hwaits⟩
  exact ⟨fun h => (hrun _ s _ (Nat.lt_succ_self _)).1 _ _ h, fun h => (hrun _ s _ (Nat.lt_succ_self _)).2 _ _ h⟩

theorem runs_loop (hreads : ReadsOn body) (hbody : ∀ s, Determined (body s)) :
    Runs (loop body s) t a ↔ Runs (body s) t (.inr a) ∨
      ∃ t₁ s' t₂, Runs (body s) t₁ (.inl s') ∧ Runs (loop body s') t₂ a ∧ t = t₁ ++ t₂ := by
  rw [loop_eq hreads hbody, runs_bind (hbody s) (Determined.afterTurn (Determined.loop hreads hbody))]
  constructor
  · rintro ⟨t₁, r, t₂, h₁, h₂, rfl⟩
    cases r with
    | inl s' => exact .inr ⟨t₁, s', t₂, h₁, h₂, rfl⟩
    | inr a' =>
      obtain ⟨rfl, rfl⟩ := runs_pure.mp h₂
      exact .inl (by simpa using h₁)
  · rintro (h | ⟨t₁, s', t₂, h₁, h₂, rfl⟩)
    · exact ⟨t, .inr a, [], h, runs_pure.mpr ⟨rfl, rfl⟩, by simp⟩
    · exact ⟨t₁, .inl s', t₂, h₁, h₂, rfl⟩

theorem waits_loop (hreads : ReadsOn body) (hbody : ∀ s, Determined (body s)) :
    Waits (loop body s) t ↔ Waits (body s) t ∨
      ∃ t₁ s' t₂, Runs (body s) t₁ (.inl s') ∧ Waits (loop body s') t₂ ∧ t = t₁ ++ t₂ := by
  rw [loop_eq hreads hbody, waits_bind (hbody s) (Determined.afterTurn (Determined.loop hreads hbody))]
  refine or_congr_right ?_
  constructor
  · rintro ⟨t₁, r, t₂, h₁, h₂, rfl⟩
    cases r with
    | inl s' => exact ⟨t₁, s', t₂, h₁, h₂, rfl⟩
    | inr a' => exact absurd h₂ not_waits_pure
  · rintro ⟨t₁, s', t₂, h₁, h₂, rfl⟩
    exact ⟨t₁, .inl s', t₂, h₁, h₂, rfl⟩

/-- The accesses of a loop that ends are those of turns that go on and of a last turn. -/
theorem runs_loop_induction (hreads : ReadsOn body) (hbody : ∀ s, Determined (body s))
    {motive : σ → List (Access Port Value) → α → Prop}
    (hlast : ∀ s t a, Runs (body s) t (.inr a) → motive s t a)
    (hturn : ∀ s t s' t' a, Runs (body s) t (.inl s') → motive s' t' a → motive s (t ++ t') a)
    (h : Runs (loop body s) t a) : motive s t a := by
  have hall : ∀ n s t, (answersOf t).length < n → Runs (loop body s) t a → motive s t a := by
    intro n
    induction n with
    | zero => exact fun _ _ h => absurd h (Nat.not_lt_zero _)
    | succ n ih =>
      intro s t hn h
      rcases (runs_loop hreads hbody).mp h with h | ⟨t₁, s', t₂, h₁, h₂, rfl⟩
      · exact hlast s t a h
      · have hpos := List.length_pos_iff.mpr (hreads s t₁ s' h₁)
        rw [answersOf_append, List.length_append] at hn
        exact hturn s t₁ s' t₂ a h₁ (ih s' t₂ (by omega) h₂)
  exact hall _ s t (Nat.lt_succ_self _) h

/-- The accesses of a loop that waits are those of turns that go on and of a turn that waits. -/
theorem waits_loop_induction (hreads : ReadsOn body) (hbody : ∀ s, Determined (body s))
    {motive : σ → List (Access Port Value) → Prop}
    (hlast : ∀ s t, Waits (body s) t → motive s t)
    (hturn : ∀ s t s' t', Runs (body s) t (.inl s') → motive s' t' → motive s (t ++ t'))
    (h : Waits (loop body s) t) : motive s t := by
  have hall : ∀ n s t, (answersOf t).length < n → Waits (loop body s) t → motive s t := by
    intro n
    induction n with
    | zero => exact fun _ _ h => absurd h (Nat.not_lt_zero _)
    | succ n ih =>
      intro s t hn h
      rcases (waits_loop hreads hbody).mp h with h | ⟨t₁, s', t₂, h₁, h₂, rfl⟩
      · exact hlast s t h
      · have hpos := List.length_pos_iff.mpr (hreads s t₁ s' h₁)
        rw [answersOf_append, List.length_append] at hn
        exact hturn s t₁ s' t₂ h₁ (ih s' t₂ (by omega) h₂)
  exact hall _ s t (Nat.lt_succ_self _) h

end Loops

/-! ## Loops over items -/

section Items

variable {γ : Type} {Item : γ → List (Access Port Value) → Prop} {next : σ → γ → σ ⊕ α}
  {body : σ → Driver Port Value (σ ⊕ α)} {s s' : σ} {cs cs' : List γ}

/-- The accesses for a list of items, one after the other. -/
inductive Items (Item : γ → List (Access Port Value) → Prop) : List γ → List (Access Port Value) → Prop
  | nil : Items Item [] []
  | cons {c : γ} {cs : List γ} {t t' : List (Access Port Value)} :
    Item c t → Items Item cs t' → Items Item (c :: cs) (t ++ t')

/-- Items taken one by one, until there is a result or the items are used up. -/
inductive Feeds (next : σ → γ → σ ⊕ α) : σ → List γ → σ ⊕ α → Prop
  | nil {s : σ} : Feeds next s [] (.inl s)
  | turn {s : σ} {c : γ} {s' : σ} {cs : List γ} {r : σ ⊕ α} :
    next s c = .inl s' → Feeds next s' cs r → Feeds next s (c :: cs) r
  | last {s : σ} {c : γ} {a : α} : next s c = .inr a → Feeds next s [c] (.inr a)

/-- The turns of the loop take one item each. -/
def TakesItems (body : σ → Driver Port Value (σ ⊕ α)) (Item : γ → List (Access Port Value) → Prop)
    (next : σ → γ → σ ⊕ α) : Prop :=
  ∀ s t r, Runs (body s) t r ↔ ∃ c, Item c t ∧ next s c = r

/-- A loop over items ends with the item that gives it a result. -/
theorem runs_loop_items (hreads : ReadsOn body) (hbody : ∀ s, Determined (body s))
    (htakes : TakesItems body Item next) :
    Runs (loop body s) t a ↔ ∃ cs, Items Item cs t ∧ Feeds next s cs (.inr a) := by
  constructor
  · intro h
    refine runs_loop_induction (motive := fun s t a => ∃ cs, Items Item cs t ∧ Feeds next s cs (.inr a))
      hreads hbody ?_ ?_ h
    · intro s t a hlast
      obtain ⟨c, hitem, hnext⟩ := (htakes s t _).mp hlast
      exact ⟨[c], by simpa using Items.cons hitem .nil, .last hnext⟩
    · rintro s t s' t' a hturn ⟨cs, hitems, hfeeds⟩
      obtain ⟨c, hitem, hnext⟩ := (htakes s t _).mp hturn
      exact ⟨c :: cs, .cons hitem hitems, .turn hnext hfeeds⟩
  · rintro ⟨cs, hitems, hfeeds⟩
    induction hitems generalizing s with
    | nil => cases hfeeds
    | @cons c cs t t' hitem hitems ih =>
      cases hfeeds with
      | turn hnext hfeeds =>
        exact (runs_loop hreads hbody).mpr (.inr ⟨t, _, t', (htakes s t _).mpr ⟨c, hitem, hnext⟩, ih hfeeds, rfl⟩)
      | last hnext =>
        cases hitems
        rw [List.append_nil]
        exact (runs_loop hreads hbody).mpr (.inl ((htakes s t _).mpr ⟨c, hitem, hnext⟩))

/-- A loop over items that waits has taken some items and waits in its next turn. -/
theorem waits_loop_items (hreads : ReadsOn body) (hbody : ∀ s, Determined (body s))
    (htakes : TakesItems body Item next) :
    Waits (loop body s) t ↔ ∃ cs s' t₁ t₂, Items Item cs t₁ ∧ Feeds next s cs (.inl s') ∧
      Waits (body s') t₂ ∧ t = t₁ ++ t₂ := by
  constructor
  · intro h
    refine waits_loop_induction (motive := fun s t => ∃ cs s' t₁ t₂, Items Item cs t₁ ∧
      Feeds next s cs (.inl s') ∧ Waits (body s') t₂ ∧ t = t₁ ++ t₂) hreads hbody ?_ ?_ h
    · intro s t hlast
      exact ⟨[], s, [], t, .nil, .nil, hlast, rfl⟩
    · rintro s t s' t' hturn ⟨cs, s'', t₁, t₂, hitems, hfeeds, hwaits, rfl⟩
      obtain ⟨c, hitem, hnext⟩ := (htakes s t _).mp hturn
      exact ⟨c :: cs, s'', t ++ t₁, t₂, .cons hitem hitems, .turn hnext hfeeds, hwaits, by simp⟩
  · rintro ⟨cs, s', t₁, t₂, hitems, hfeeds, hwaits, rfl⟩
    induction hitems generalizing s with
    | nil =>
      cases hfeeds
      exact (waits_loop hreads hbody).mpr (.inl hwaits)
    | @cons c cs t t' hitem hitems ih =>
      cases hfeeds with
      | turn hnext hfeeds =>
        exact (waits_loop hreads hbody).mpr
          (.inr ⟨t, _, t' ++ t₂, (htakes s t _).mpr ⟨c, hitem, hnext⟩, ih hfeeds, by simp⟩)

/-- Take items up to the first one that stops. -/
def untilStop (stop : γ → Bool) (take : σ → γ → σ) (finish : σ → γ → α) (s : σ) (c : γ) : σ ⊕ α :=
  if stop c then .inr (finish s c) else .inl (take s c)

variable {stop : γ → Bool} {take : σ → γ → σ} {finish : σ → γ → α}

theorem feeds_untilStop_result :
    Feeds (untilStop stop take finish) s cs (.inr a) ↔
      ∃ before c, cs = before ++ [c] ∧ stop c = true ∧ (∀ b ∈ before, stop b = false) ∧
        a = finish (before.foldl take s) c := by
  constructor
  · intro h
    generalize hr : (Sum.inr a : σ ⊕ α) = r at h
    induction h with
    | nil => cases hr
    | @turn s c s' cs r hnext _ ih =>
      obtain ⟨before, c', rfl, hstop, hbefore, ha⟩ := ih hr
      unfold untilStop at hnext
      split at hnext
      case isTrue => cases hnext
      case isFalse hgo =>
        cases hnext
        exact ⟨c :: before, c', rfl, hstop, List.forall_mem_cons.mpr ⟨by simpa using hgo, hbefore⟩, ha⟩
    | @last s c a' hnext =>
      cases hr
      unfold untilStop at hnext
      split at hnext
      case isTrue hstop =>
        cases hnext
        exact ⟨[], c, rfl, hstop, by simp, rfl⟩
      case isFalse => cases hnext
  · rintro ⟨before, c, rfl, hstop, hbefore, rfl⟩
    induction before generalizing s with
    | nil => exact .last (if_pos hstop)
    | cons b before ih =>
      obtain ⟨hb, hbefore⟩ := List.forall_mem_cons.mp hbefore
      exact .turn (if_neg (by simp [hb])) (ih hbefore)

theorem feeds_untilStop_more :
    Feeds (untilStop stop take finish) s cs (.inl s') ↔ (∀ b ∈ cs, stop b = false) ∧ s' = cs.foldl take s := by
  constructor
  · intro h
    generalize hr : (Sum.inl s' : σ ⊕ α) = r at h
    induction h with
    | nil =>
      cases hr
      exact ⟨by simp, rfl⟩
    | @turn s c s₁ cs r hnext _ ih =>
      obtain ⟨hall, hs'⟩ := ih hr
      unfold untilStop at hnext
      split at hnext
      case isTrue => cases hnext
      case isFalse hgo =>
        cases hnext
        exact ⟨List.forall_mem_cons.mpr ⟨by simpa using hgo, hall⟩, hs'⟩
    | last => cases hr
  · rintro ⟨hall, rfl⟩
    induction cs generalizing s with
    | nil => exact .nil
    | cons c cs ih =>
      obtain ⟨hc, hall⟩ := List.forall_mem_cons.mp hall
      exact .turn (if_neg (by simp [hc])) (ih hall)

end Items

/-! ## Polling -/

section Polling

variable {port : Port} {done : Value → Bool} {v : Value}

/-- The reads of a poll that has not ended. -/
def idle (port : Port) (waiting : List Value) : List (Access Port Value) := waiting.map (.input port)

@[simp] theorem answersOf_idle {waiting : List Value} : answersOf (idle port waiting) = waiting := by
  induction waiting with
  | nil => rfl
  | cons v waiting ih => exact congrArg (v :: ·) ih

theorem idle_cons {w : Value} {waiting : List Value} :
    idle port (w :: waiting) = .input port w :: idle port waiting := rfl

theorem inputsFrom_idle [DecidableEq Port] {p : Port} (waiting : List Value) (h : port ≠ p) :
    inputsFrom p (idle port waiting) = [] := by
  induction waiting with
  | nil => rfl
  | cons w waiting ih => rw [idle_cons, inputsFrom_input, if_neg h, ih]

theorem outputsTo_idle [DecidableEq Port] {p : Port} (waiting : List Value) :
    outputsTo p (idle port waiting) = [] := by
  induction waiting with
  | nil => rfl
  | cons w waiting ih => rw [idle_cons, outputsTo_input, ih]

theorem determined_pollTurn (s : Unit) : Determined (pollTurn port done s) :=
  (Determined.inp port).bind fun _ => Determined.pure _

theorem runs_pollTurn {s : Unit} {r : Unit ⊕ Value} :
    Runs (pollTurn port done s) t r ↔
      ∃ v, t = [.input port v] ∧ (if done v then .inr v else .inl ()) = r := by
  unfold pollTurn
  rw [runs_bind (Determined.inp port) fun _ => Determined.pure _]
  simp only [runs_inp, runs_pure]
  constructor
  · rintro ⟨t₁, v, t₂, rfl, ⟨rfl, hr⟩, rfl⟩
    exact ⟨v, rfl, hr⟩
  · rintro ⟨v, rfl, hr⟩
    exact ⟨_, v, _, rfl, ⟨rfl, hr⟩, rfl⟩

theorem readsOn_pollTurn {done : Value → Bool} : ReadsOn (pollTurn port done) := by
  intro s t s' h
  obtain ⟨v, rfl, -⟩ := runs_pollTurn.mp h
  exact List.cons_ne_nil _ _

theorem Determined.poll (port : Port) (done : Value → Bool) : Determined (poll port done) :=
  Determined.loop readsOn_pollTurn determined_pollTurn ()

/-- A poll ends with the first answer that passes the test. -/
theorem runs_poll :
    Runs (poll port done) t v ↔
      ∃ waiting, (∀ w ∈ waiting, done w = false) ∧ done v = true ∧ t = idle port waiting ++ [.input port v] := by
  constructor
  · intro h
    refine runs_loop_induction (motive := fun _ t v => ∃ waiting, (∀ w ∈ waiting, done w = false) ∧
      done v = true ∧ t = idle port waiting ++ [.input port v]) readsOn_pollTurn determined_pollTurn ?_ ?_ h
    · intro s t a hlast
      obtain ⟨w, rfl, hw⟩ := runs_pollTurn.mp hlast
      split at hw
      case isTrue hdone =>
        cases hw
        exact ⟨[], by simp, hdone, rfl⟩
      case isFalse => cases hw
    · rintro s t s' t' a hturn ⟨waiting, hwaiting, hdone, rfl⟩
      obtain ⟨w, rfl, hw⟩ := runs_pollTurn.mp hturn
      split at hw
      case isTrue => cases hw
      case isFalse hnot =>
        exact ⟨w :: waiting, List.forall_mem_cons.mpr ⟨by simpa using hnot, hwaiting⟩, hdone, rfl⟩
  · rintro ⟨waiting, hwaiting, hdone, rfl⟩
    unfold poll
    induction waiting with
    | nil =>
      exact (runs_loop readsOn_pollTurn determined_pollTurn).mpr
        (.inl (runs_pollTurn.mpr ⟨v, rfl, if_pos hdone⟩))
    | cons w waiting ih =>
      obtain ⟨hw, hwaiting⟩ := List.forall_mem_cons.mp hwaiting
      exact (runs_loop readsOn_pollTurn determined_pollTurn).mpr
        (.inr ⟨[.input port w], (), _, runs_pollTurn.mpr ⟨w, rfl, if_neg (by simp [hw])⟩, ih hwaiting, rfl⟩)

theorem waits_pollTurn {s : Unit} : Waits (pollTurn port done s) t ↔ t = [] := by
  unfold pollTurn
  rw [waits_bind (Determined.inp port) fun _ => Determined.pure _, waits_inp]
  exact or_iff_left fun ⟨_, _, _, _, hwaits, _⟩ => not_waits_pure hwaits

/-- A poll waits as long as no answer passes the test. -/
theorem waits_poll :
    Waits (poll port done) t ↔ ∃ waiting, (∀ w ∈ waiting, done w = false) ∧ t = idle port waiting := by
  constructor
  · intro h
    refine waits_loop_induction (motive := fun _ t => ∃ waiting, (∀ w ∈ waiting, done w = false) ∧
      t = idle port waiting) readsOn_pollTurn determined_pollTurn ?_ ?_ h
    · intro s t hlast
      exact ⟨[], by simp, waits_pollTurn.mp hlast⟩
    · rintro s t s' t' hturn ⟨waiting, hwaiting, rfl⟩
      obtain ⟨w, rfl, hw⟩ := runs_pollTurn.mp hturn
      split at hw
      case isTrue => cases hw
      case isFalse hnot =>
        exact ⟨w :: waiting, List.forall_mem_cons.mpr ⟨by simpa using hnot, hwaiting⟩, rfl⟩
  · rintro ⟨waiting, hwaiting, rfl⟩
    unfold poll
    induction waiting with
    | nil => exact (waits_loop readsOn_pollTurn determined_pollTurn).mpr (.inl (waits_pollTurn.mpr rfl))
    | cons w waiting ih =>
      obtain ⟨hw, hwaiting⟩ := List.forall_mem_cons.mp hwaiting
      exact (waits_loop readsOn_pollTurn determined_pollTurn).mpr
        (.inr ⟨[.input port w], (), _, runs_pollTurn.mpr ⟨w, rfl, if_neg (by simp [hw])⟩, ih hwaiting, rfl⟩)

end Polling

end Ports
