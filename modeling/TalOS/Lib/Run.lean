-- SUMMARY: Runs of operations: the rule that lifts an invariant to a run, and the one that lifts a simulation.
import Mathlib.Data.List.Induction
import Mathlib.Tactic.Common

/-!
# Runs of operations

`step op s` is the state after the operation `op`, or `none` when the operation
is undefined in `s`. A run is a list of operations, each defined where it is
called.
-/

namespace Run

variable {σ Op : Type}

/-- The state after the operations of the list. -/
def run (step : Op → σ → Option σ) : List Op → σ → Option σ
  | [], s => some s
  | op :: ops, s => (step op s).bind (run step ops)

variable {step : Op → σ → Option σ}

theorem run_cons_eq_some {op : Op} {ops : List Op} {s s' : σ} :
    run step (op :: ops) s = some s' ↔ ∃ s₁, step op s = some s₁ ∧ run step ops s₁ = some s' :=
  Option.bind_eq_some_iff

theorem run_append {ops ops' : List Op} {s : σ} :
    run step (ops ++ ops') s = (run step ops s).bind (run step ops') := by
  induction ops generalizing s with
  | nil => rfl
  | cons op ops ih =>
    have hrest : run step (ops ++ ops') = fun s₁ => (run step ops s₁).bind (run step ops') :=
      funext fun s₁ => ih
    rw [List.cons_append, run, run, hrest, Option.bind_assoc]

theorem run_concat_eq_some {ops : List Op} {op : Op} {s s' : σ} :
    run step (ops ++ [op]) s = some s' ↔ ∃ s₁, run step ops s = some s₁ ∧ step op s₁ = some s' := by
  have hone : run step [op] = step op := funext fun s₁ => Option.bind_fun_some (step op s₁)
  rw [run_append, hone, Option.bind_eq_some_iff]

/-- What may depend on the operations so far, from the start and from one operation to the next. -/
theorem run_history {P : List Op → σ → Prop} {s : σ} (hstart : P [] s)
    (hstep : ∀ ops op s₁ s₂, run step ops s = some s₁ → P ops s₁ → step op s₁ = some s₂ →
      P (ops ++ [op]) s₂)
    {ops : List Op} {s' : σ} (hrun : run step ops s = some s') : P ops s' := by
  induction ops using List.reverseRecOn generalizing s' with
  | nil => exact Option.some.inj hrun ▸ hstart
  | append_singleton ops op ih =>
    obtain ⟨s₁, hops, hop⟩ := run_concat_eq_some.mp hrun
    exact hstep ops op s₁ s' hops (ih hops) hop

/-- Each operation of a run meets a condition in the state it is called in. -/
def Along (step : Op → σ → Option σ) (cond : Op → σ → Prop) : List Op → σ → Prop
  | [], _ => True
  | op :: ops, s => cond op s ∧ ∀ s₁, step op s = some s₁ → Along step cond ops s₁

theorem Along.of_forall {cond : Op → Prop} {ops : List Op} (h : ∀ op ∈ ops, cond op) (s : σ) :
    Along step (fun op _ => cond op) ops s := by
  induction ops generalizing s with
  | nil => trivial
  | cons op ops ih =>
    exact ⟨h op List.mem_cons_self, fun s₁ _ => ih (fun op' h' => h op' (List.mem_cons_of_mem _ h')) s₁⟩

/-- What every operation that meets the condition preserves, a run of such operations preserves. -/
theorem run_preserves {cond : Op → σ → Prop} {I : σ → Prop}
    (hstep : ∀ op s s', cond op s → I s → step op s = some s' → I s') {ops : List Op} {s s' : σ}
    (hops : Along step cond ops s) (hrun : run step ops s = some s') (hs : I s) : I s' := by
  induction ops generalizing s with
  | nil => exact Option.some.inj hrun ▸ hs
  | cons op ops ih =>
    obtain ⟨s₁, hop, hrest⟩ := run_cons_eq_some.mp hrun
    obtain ⟨hcond, hnext⟩ := hops
    exact ih (hnext s₁ hop) hrest (hstep op s s₁ hcond hs hop)

/-- A system is as it should be while every operation meets the condition, and broken for good from the first
one on that does not. -/
theorem run_modes {cond : Op → σ → Prop} {good bad : σ → Prop}
    (hkeep : ∀ op s s', cond op s → good s → step op s = some s' → good s')
    (hbreak : ∀ op s s', ¬ cond op s → good s → step op s = some s' → bad s')
    (hbad : ∀ op s s', bad s → step op s = some s' → bad s') {ops : List Op} {s s' : σ}
    (hrun : run step ops s = some s') (hs : good s) :
    Along step cond ops s ∧ good s' ∨ ¬ Along step cond ops s ∧ bad s' := by
  induction ops generalizing s with
  | nil => exact .inl ⟨trivial, Option.some.inj hrun ▸ hs⟩
  | cons op ops ih =>
    obtain ⟨s₁, hop, hrest⟩ := run_cons_eq_some.mp hrun
    have hnext : Along step cond (op :: ops) s ↔ cond op s ∧ Along step cond ops s₁ := by
      simp [Along, hop]
    rw [hnext]
    by_cases hcond : cond op s
    · rcases ih hrest (hkeep op s s₁ hcond hs hop) with ⟨hall, hgood⟩ | ⟨hnot, hbad'⟩
      · exact .inl ⟨⟨hcond, hall⟩, hgood⟩
      · exact .inr ⟨fun h => hnot h.2, hbad'⟩
    · refine .inr ⟨fun h => hcond h.1, ?_⟩
      exact run_preserves (fun op s s' _ => hbad op s s') (Along.of_forall (fun _ _ => trivial) s₁) hrest
        (hbreak op s s₁ hcond hs hop)

/-- A run with the changes of a second system beside it, which may depend on the state of the first. -/
def beside {τ : Type} (step : Op → σ → Option σ) (change : Op → σ → τ → Option τ) (op : Op) (c : σ × τ) :
    Option (σ × τ) :=
  (step op c.1).bind fun s => (change op c.1 c.2).map fun t => (s, t)

/-- Where every operation that meets the condition is a change of the second system, and keeps the two
related, a run of such operations is a run of the second system, and ends in related states. -/
theorem run_refines {τ : Type} {change : Op → σ → τ → Option τ} {cond : Op → σ → Prop} {R : σ → τ → Prop}
    (hstep : ∀ op s s' t, cond op s → R s t → step op s = some s' → ∃ t', change op s t = some t' ∧ R s' t')
    {ops : List Op} {s s' : σ} {t : τ} (hops : Along step cond ops s) (hrun : run step ops s = some s')
    (h : R s t) : ∃ t', run (beside step change) ops (s, t) = some (s', t') ∧ R s' t' := by
  induction ops generalizing s t with
  | nil =>
    obtain rfl := Option.some.inj hrun
    exact ⟨t, rfl, h⟩
  | cons op ops ih =>
    obtain ⟨s₁, hop, hrest⟩ := run_cons_eq_some.mp hrun
    obtain ⟨t₁, hchange, h₁⟩ := hstep op s s₁ t hops.1 h hop
    obtain ⟨t', hrun', h'⟩ := ih (hops.2 s₁ hop) hrest h₁
    refine ⟨t', run_cons_eq_some.mpr ⟨(s₁, t₁), ?_, hrun'⟩, h'⟩
    rw [beside, hop, Option.bind_some, hchange, Option.map_some]

/-- What a condition and an invariant give at one operation, they give along a run. -/
theorem Along.of_invariant {cond good : Op → σ → Prop} {I : σ → Prop}
    (hgood : ∀ op s, cond op s → I s → good op s)
    (hstep : ∀ op s s', cond op s → I s → step op s = some s' → I s') {ops : List Op} {s : σ}
    (hops : Along step cond ops s) (hs : I s) : Along step good ops s := by
  induction ops generalizing s with
  | nil => trivial
  | cons op ops ih =>
    obtain ⟨hcond, hnext⟩ := hops
    exact ⟨hgood op s hcond hs, fun s₁ hop => ih (hnext s₁ hop) (hstep op s s₁ hcond hs hop)⟩

theorem along_append {cond : Op → σ → Prop} {ops ops' : List Op} {s : σ} :
    Along step cond (ops ++ ops') s ↔
      Along step cond ops s ∧ ∀ s₁, run step ops s = some s₁ → Along step cond ops' s₁ := by
  induction ops generalizing s with
  | nil => simp [Along, run]
  | cons op ops ih =>
    simp only [List.cons_append, Along, ih, run_cons_eq_some]
    constructor
    · rintro ⟨hcond, hrest⟩
      refine ⟨⟨hcond, fun s₁ hop => (hrest s₁ hop).1⟩, ?_⟩
      rintro s₂ ⟨s₁, hop, hops⟩
      exact (hrest s₁ hop).2 s₂ hops
    · rintro ⟨⟨hcond, hrest⟩, hlast⟩
      exact ⟨hcond, fun s₁ hop => ⟨hrest s₁ hop, fun s₂ hops => hlast s₂ ⟨s₁, hop, hops⟩⟩⟩

theorem along_concat {cond : Op → σ → Prop} {ops : List Op} {op : Op} {s s' : σ}
    (hrun : run step ops s = some s') :
    Along step cond (ops ++ [op]) s ↔ Along step cond ops s ∧ cond op s' := by
  rw [along_append]
  refine and_congr_right fun _ => ?_
  constructor
  · exact fun h => (h s' hrun).1
  · intro h s₁ hrun'
    obtain rfl : s' = s₁ := Option.some.inj (hrun.symm.trans hrun')
    exact ⟨h, fun _ _ => trivial⟩

/-- The run goes through a state with a property, its first and its last state included. -/
def Passes (step : Op → σ → Option σ) (P : σ → Prop) (ops : List Op) (s : σ) : Prop :=
  ∃ before, before <+: ops ∧ ∃ s₁, run step before s = some s₁ ∧ P s₁

theorem passes_last {P : σ → Prop} {ops : List Op} {s s' : σ} (hrun : run step ops s = some s')
    (h : P s') : Passes step P ops s :=
  ⟨ops, List.prefix_refl ops, s', hrun, h⟩

theorem Passes.append {P : σ → Prop} {ops : List Op} {s : σ} (h : Passes step P ops s)
    (ops' : List Op) : Passes step P (ops ++ ops') s := by
  obtain ⟨before, hprefix, hstate⟩ := h
  exact ⟨before, hprefix.trans (List.prefix_append ops ops'), hstate⟩

/-! ## Operations with results -/

variable {τ Out : Type}

/-- The results of the operations, in order, and the state after them. -/
def runOut (step : Op → σ → Out × σ) : List Op → σ → List Out × σ
  | [], s => ([], s)
  | op :: ops, s =>
    let rest := runOut step ops (step op s).2
    ((step op s).1 :: rest.1, rest.2)

/-- Two systems in related states that give equal results and stay related at every allowed operation
give equal results and stay related over a run. -/
theorem runOut_simulates {stepσ : Op → σ → Out × σ} {stepτ : Op → τ → Out × τ} {allowed : Op → Prop}
    {R : σ → τ → Prop}
    (hstep : ∀ op s t, allowed op → R s t →
      (stepσ op s).1 = (stepτ op t).1 ∧ R (stepσ op s).2 (stepτ op t).2)
    {ops : List Op} {s : σ} {t : τ} (hops : ∀ op ∈ ops, allowed op) (h : R s t) :
    (runOut stepσ ops s).1 = (runOut stepτ ops t).1 ∧
      R (runOut stepσ ops s).2 (runOut stepτ ops t).2 := by
  induction ops generalizing s t with
  | nil => exact ⟨rfl, h⟩
  | cons op ops ih =>
    obtain ⟨hout, hnext⟩ := hstep op s t (hops op List.mem_cons_self) h
    obtain ⟨houts, hlast⟩ := ih (fun op' hop => hops op' (List.mem_cons_of_mem _ hop)) hnext
    exact ⟨congrArg₂ List.cons hout houts, hlast⟩

/-! ## What was written last -/

variable {α Op' : Type} {f : Op → Option α}

/-- The value after operations of which some write it: that of the last one that does. -/
def lastWrite (f : Op → Option α) (ops : List Op) (start : α) : α := (ops.filterMap f).getLast?.getD start

theorem lastWrite_append (f : Op → Option α) (ops ops' : List Op) (start : α) :
    lastWrite f (ops ++ ops') start = lastWrite f ops' (lastWrite f ops start) := by
  unfold lastWrite
  rw [List.filterMap_append, List.getLast?_append]
  cases (ops'.filterMap f).getLast? <;> rfl

@[simp] theorem lastWrite_nil (f : Op → Option α) (start : α) : lastWrite f [] start = start := rfl

@[simp] theorem lastWrite_cons (f : Op → Option α) (op : Op) (ops : List Op) (start : α) :
    lastWrite f (op :: ops) start = lastWrite f ops ((f op).getD start) := by
  unfold lastWrite
  rw [List.filterMap_cons]
  cases f op with
  | none => rfl
  | some x =>
    rw [List.getLast?_cons]
    cases (ops.filterMap f).getLast? <;> rfl

theorem lastWrite_concat (f : Op → Option α) (ops : List Op) (op : Op) (start : α) :
    lastWrite f (ops ++ [op]) start = (f op).getD (lastWrite f ops start) := by
  rw [lastWrite_append, lastWrite_cons, lastWrite_nil]

/-- Operations that are each made of others write what those write. -/
theorem lastWrite_flatMap {g : Op' → List Op} {f' : Op' → Option α}
    (h : ∀ op start, lastWrite f (g op) start = (f' op).getD start) (ops : List Op') (start : α) :
    lastWrite f (ops.flatMap g) start = lastWrite f' ops start := by
  induction ops using List.reverseRecOn with
  | nil => rfl
  | append_singleton ops op ih =>
    rw [List.flatMap_append, lastWrite_append, lastWrite_concat, ih, List.flatMap_singleton, h]

/-- What is written with a value is the same function of the last one. -/
theorem lastWrite_map {β : Type} (g : α → β) (ops : List Op) (start : α) :
    lastWrite (fun op => (f op).map g) ops (g start) = g (lastWrite f ops start) := by
  induction ops using List.reverseRecOn with
  | nil => rfl
  | append_singleton ops op ih =>
    rw [lastWrite_concat, lastWrite_concat, ih]
    cases f op <;> rfl

end Run
