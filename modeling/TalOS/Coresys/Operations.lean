-- SUMMARY: Runs of calls of ramfs from `ramfs_init` on, and the trees that calls which only create build.
import TalOS.Coresys.Creation
import TalOS.Lib.Run

/-!
# Runs of ramfs

A run is `ramfs_init` and then any calls that make, write or delete nodes, as long
as each has a defined result. Calls that only create keep a file tree in which
every directory starts with its links.
-/

namespace TalOS

open MachineInt

/-- A call with its arguments. A file is written through the node that its path leads to. -/
inductive RamfsOp where
  | mkDir (name path : List UInt8)
  | newRegFile (name path : List UInt8)
  | write (path buf : List UInt8) (offset : Nat)
  | deleteNode (path : List UInt8)
deriving Repr, DecidableEq

def RamfsOp.step : RamfsOp → Ramfs → Option Ramfs
  | .mkDir name path, s => (ramfsMkDir s name path).map fun r => r.1
  | .newRegFile name path, s => (ramfsNewRegFile s name path).map fun r => r.1
  | .write path buf offset, s =>
    (fsGetNode s 0 path).bind fun node => (ramfsWrite s node buf offset).map fun r => r.1
  | .deleteNode path, s => (ramfsDeleteNode s path).map fun r => r.1

/-- `ramfs_init` succeeds, and then the calls are made. -/
def ramfsRun (s : Ramfs) (ops : List RamfsOp) : Option Ramfs :=
  (ramfsInit s).bind fun r => if r.2 = .ok then Run.run RamfsOp.step ops r.1 else none

/-- Names and paths are strings. -/
def RamfsOp.Proper : RamfsOp → Prop
  | .mkDir name path | .newRegFile name path => 0 ∉ name ∧ 0 ∉ path
  | .write path _ _ | .deleteNode path => 0 ∉ path

/-- The call creates a node. -/
def RamfsOp.Creates : RamfsOp → Prop
  | .mkDir _ _ | .newRegFile _ _ => True
  | _ => False

instance : DecidablePred RamfsOp.Proper
  | .mkDir name path | .newRegFile name path => inferInstanceAs (Decidable (0 ∉ name ∧ 0 ∉ path))
  | .write path _ _ | .deleteNode path => inferInstanceAs (Decidable (0 ∉ path))

instance : DecidablePred RamfsOp.Creates
  | .mkDir _ _ | .newRegFile _ _ => inferInstanceAs (Decidable True)
  | .write _ _ _ | .deleteNode _ => inferInstanceAs (Decidable False)

variable {s s' : Ramfs} {T : Forest Nat}

/-- What one creation does to the tree. -/
theorem RamfsOp.creation_step {op : RamfsOp} (hcreates : op.Creates) (hproper : op.Proper)
    (h : FileTree s T) (hstep : op.step s = some s') :
    KeepsTree T s s' ∨ ∃ P a k name path, (op = .mkDir name path ∨ op = .newRegFile name path) ∧
      creationParent s name path = some (.ok, P) ∧ Created T P a k name s s' := by
  cases op with
  | mkDir name path =>
    obtain ⟨⟨s₁, x, err⟩, hrun, rfl⟩ := Option.map_eq_some_iff.mp hstep
    rcases h.mkDir_outcome hproper.1 hrun with ⟨-, -, hkeeps⟩ | ⟨-, P, k, hparent, hcreated⟩
    · exact .inl hkeeps
    · exact .inr ⟨P, x, k, name, path, .inl rfl, hparent, hcreated⟩
  | newRegFile name path =>
    obtain ⟨⟨s₁, x, err⟩, hrun, rfl⟩ := Option.map_eq_some_iff.mp hstep
    rcases h.newRegFile_outcome hproper.1 hrun with ⟨-, -, hkeeps⟩ | ⟨-, P, k, hparent, hcreated⟩
    · exact .inl hkeeps
    · exact .inr ⟨P, x, k, name, path, .inr rfl, hparent, hcreated⟩
  | write | deleteNode => exact hcreates.elim

/-- What runs after `ramfs_init` runs from the state that it has set up. -/
theorem ramfsInit_bind_eq_some {f : Ramfs → Option Ramfs} {s₀ : Ramfs}
    (h : ((ramfsInit s₀).bind fun r => if r.2 = .ok then f r.1 else none) = some s) :
    ∃ s₁, ramfsInit s₀ = some (s₁, .ok) ∧ f s₁ = some s := by
  obtain ⟨⟨s₁, err⟩, hinit, hrun⟩ := Option.bind_eq_some_iff.mp h
  dsimp only at hrun
  split at hrun
  · next hok => exact ⟨s₁, hok ▸ hinit, hrun⟩
  · cases hrun

/-- A run after `ramfs_init` keeps what the first tree has and every call preserves. -/
theorem ramfsRun_preserves {cond : RamfsOp → Ramfs → Prop} {I : Ramfs → Forest Nat → Prop}
    (hfirst : ∀ s T, FileTree s T → DotsFirst s T → NamesDistinct s T → I s T)
    (hstep : ∀ op s s' T, cond op s → I s T → RamfsOp.step op s = some s' → ∃ T', I s' T')
    {s₀ : Ramfs} (hboot : Boot s₀) {ops : List RamfsOp}
    (hops : ∀ r, ramfsInit s₀ = some r → Run.Along RamfsOp.step cond ops r.1)
    (hrun : ramfsRun s₀ ops = some s) : ∃ T, I s T := by
  obtain ⟨s₁, hinit, hrun⟩ := ramfsInit_bind_eq_some hrun
  obtain ⟨T, htree, hdots, hnames⟩ := hboot.init hinit
  refine Run.run_preserves (I := fun s => ∃ T, I s T) ?_ (hops _ hinit) hrun
    ⟨T, hfirst s₁ T htree hdots hnames⟩
  rintro op s s' hcond ⟨T, hI⟩ hop
  exact hstep op s s' T hcond hI hop

/-- Creations alone leave every directory with its links in front. -/
theorem ramfsRun_creations {s₀ : Ramfs} (hboot : Boot s₀) {ops : List RamfsOp}
    (hops : ∀ op ∈ ops, op.Creates ∧ op.Proper) (hrun : ramfsRun s₀ ops = some s) :
    ∃ T, FileTree s T ∧ DotsFirst s T := by
  refine ramfsRun_preserves (I := fun s T => FileTree s T ∧ DotsFirst s T)
    (fun s T htree hdots _ => ⟨htree, hdots⟩) ?_ hboot (fun r _ => .of_forall hops r.1) hrun
  rintro op s s' T ⟨hcreates, hproper⟩ ⟨htree, hdots⟩ hop
  rcases RamfsOp.creation_step hcreates hproper htree hop with hkeeps | hcreated
  · exact ⟨T, htree.keep hkeeps, hdots.keep hkeeps⟩
  · obtain ⟨P, a, k, name, path, -, -, hcreated⟩ := hcreated
    exact ⟨_, hcreated.toAttached.fileTree htree, hcreated.dotsFirst htree hdots⟩

/-- A heap of 128 KiB at 1 MiB with nothing in it yet. -/
def bootRamfs : Ramfs where
  heap := { mem := fun _ => 0, heapMem := 0x100000, heapMemSize := 0x20000,
            currentPointer := 0x100000, magic := 0, freed := [] }
  node := fun _ => zeroNode
  root := 0
  lastIno := 0
  deallocated := []

theorem bootRamfs_boot : Boot bootRamfs := ⟨⟨by decide, by decide, by decide, by decide⟩, by decide, rfl⟩

end TalOS
