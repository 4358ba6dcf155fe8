import JigLedger.Engine.Session
import JigLedger.Proofs.Memory
import JigLedger.Proofs.Registry

/-!
# Allocators of packages

The engine relies on the allocator that a package exports: what it hands out must not overlap what
it has handed out before, and it must leave the bytes there alone. `KeepsApart` says so for every
history that a package can have while only the engine uses it: its module starts, the engine calls
the allocator, and it writes to what it has been given. The memory never exceeds what 32 bits can
address.
-/

namespace JigLedger

namespace Wasm

/-! ### Runs -/

/-- A thread comes to its end, with these results and the instance that it leaves. Calls of imported
functions are passed over where that is allowed, without results. -/
inductive Finishes (passes : Nat → List Val → Prop) :
    Instance → Thread → List Val → Instance → Prop
  | done {i : Instance} {t : Thread} {results : List Val} (h : i.step t = .finished results) :
      Finishes passes i t results i
  | step {i i' j : Instance} {t t' : Thread} {results : List Val}
      (h : i.step t = .running i' t') (rest : Finishes passes i' t' results j) :
      Finishes passes i t results j
  | pass {i j : Instance} {t t' : Thread} {f : Nat} {args results : List Val}
      (h : i.step t = .waiting f args t') (allowed : passes f args.reverse)
      (rest : Finishes passes i (t'.resume []) results j) : Finishes passes i t results j

namespace Finishes

variable {passes : Nat → List Val → Prop} {i i' j : Instance} {t t' : Thread}
  {results results' : List Val}

/-- A thread that goes on comes to the end that it comes to from there. -/
theorem of_running (h : Finishes passes i t results j) (step : i.step t = .running i' t') :
    Finishes passes i' t' results j := by
  cases h with
  | done h => cases step.symm.trans h
  | step h rest =>
    cases step.symm.trans h
    exact rest
  | pass h => cases step.symm.trans h

/-- A thread that is at its end has come to its end. -/
theorem of_finished (h : Finishes passes i t results j) (step : i.step t = .finished results') :
    results = results' ∧ j = i := by
  cases h with
  | done h =>
    cases step.symm.trans h
    exact ⟨rfl, rfl⟩
  | step h => cases step.symm.trans h
  | pass h => cases step.symm.trans h

end Finishes

/-! ### The size of memory -/

/-- The limits of the memories of a module that was checked are in order. -/
theorem Module.checkLimits_of_validate {m : Module} (valid : m.validate = .ok ()) :
    ∀ limits ∈ m.allMemories, Module.checkLimits limits = true := by
  unfold Module.validate at valid
  split at valid
  case isTrue => cases valid
  case isFalse sized => simpa using sized

namespace Instance

variable {i i' : Instance}

/-- The memory is not larger than 32 bits can address. -/
def IsAddressable (i : Instance) : Prop := i.memory.size ≤ UInt32.size

theorem IsAddressable.grow? {count : Nat} (h : i.grow? count = some i') : i'.IsAddressable := by
  unfold Instance.grow? at h
  dsimp only at h
  split at h
  case isFalse => cases h
  case isTrue fits =>
    cases h
    have declared : i.declaredPages ≤ 65536 := by
      unfold declaredPages
      split
      · exact Nat.min_le_right _ _
      · exact Nat.le_refl _
    have pages := Nat.mul_le_mul_right pageSize (Nat.le_trans fits.1 declared)
    change (i.memory.resize _).size ≤ _
    rw [LinearMemory.size_resize]
    exact pages

/-- An instruction that is neither a store nor a call leaves the memory as it is, or lets it grow.
-/
theorem simple_eq_some {a a' : Activation} {instr : Instr} {st : List Val}
    (h : i.simple a instr st = some (i', a')) :
    i'.memory = i.memory ∨ ∃ count, i.grow? count = some i' := by
  unfold Instance.simple at h
  split at h
  case h_10 =>
    split at h
    case h_1 grown =>
      cases h
      exact .inr ⟨_, grown⟩
    case h_2 =>
      cases h
      exact .inl rfl
  all_goals first
    | cases h
      done
    | cases h
      exact .inl rfl
    | obtain ⟨_, -, same⟩ := Option.bind_eq_some_iff.1 h
      cases same
      exact .inl rfl

/-- Calling a function leaves the instance as it is. -/
theorem call_eq_running {t t' : Thread} {f : Nat} (h : t.call i f = .running i' t') : i' = i := by
  unfold Thread.call at h
  split at h
  · cases h
  dsimp only at h
  split at h
  · cases h
  split at h
  · cases h
  split at h
  · cases h
  split at h
  · cases h
    rfl
  · cases h

/-- An instruction changes the size of the memory only by letting it grow. -/
theorem size_perform {t t' : Thread} {instr : Instr} (h : i.perform t instr = .running i' t') :
    i'.memory.size = i.memory.size ∨ ∃ count, i.grow? count = some i' := by
  unfold Instance.perform at h
  dsimp only at h
  split at h
  case h_9 =>
    rw [call_eq_running h]
    exact .inl rfl
  case h_10 =>
    split at h
    · cases h
      exact .inl rfl
    · cases h
  case h_11 =>
    split at h
    · cases h
      exact .inl (LinearMemory.size_overwrite _ _ _)
    · cases h
  case h_12 =>
    split at h
    · cases h
      exact .inl rfl
    · cases h
    · cases h
  case h_13 =>
    split at h
    case h_1 simple =>
      cases h
      exact (simple_eq_some simple).imp_left (congrArg LinearMemory.size)
    case h_2 => cases h
  all_goals first
    | cases h
      done
    | cases h
      exact .inl rfl

/-- A step changes the size of the memory only by letting it grow. -/
theorem size_step {t t' : Thread} (h : i.step t = .running i' t') :
    i'.memory.size = i.memory.size ∨ ∃ count, i.grow? count = some i' := by
  unfold Instance.step at h
  split at h
  case h_2 => exact size_perform h
  case h_1 =>
    unfold Thread.leave at h
    dsimp only at h
    split at h
    · cases h
      exact .inl rfl
    · cases h
    · cases h
      exact .inl rfl

/-- A run that begins with a memory that 32 bits can address ends with one. -/
theorem IsAddressable.finishes {passes : Nat → List Val → Prop} {t : Thread} {results : List Val}
    (h : i.IsAddressable) (run : Finishes passes i t results i') : i'.IsAddressable := by
  induction run with
  | done _ => exact h
  | step running _ ih =>
    refine ih ?_
    obtain same | ⟨count, grown⟩ := size_step running
    · exact Nat.le_trans (Nat.le_of_eq same) h
    · exact .grow? grown
  | pass _ _ _ ih => exact ih h

/-- A module that was checked begins with a memory that 32 bits can address. -/
theorem IsAddressable.allocate {m : Module} {maxBytes : Nat} (valid : m.validate = .ok ())
    (h : m.allocate maxBytes = some i) : i.IsAddressable := by
  unfold Module.allocate at h
  split at h
  case isFalse => cases h
  case isTrue =>
    cases h
    change m.initialBytes ≤ UInt32.size
    unfold Module.initialBytes
    split
    case h_2 => exact Nat.zero_le _
    case h_1 limits only =>
      have member : limits ∈ m.allMemories :=
        List.mem_append_right _ (only ▸ List.mem_singleton_self limits)
      have sized := Module.checkLimits_of_validate valid limits member
      rw [Module.checkLimits, Bool.and_eq_true, decide_eq_true_eq] at sized
      exact Nat.mul_le_mul_right pageSize sized.1

/-- Writing segments changes memory only. -/
theorem module_writeSegments {segments : List Segment} (h : i.writeSegments segments = .ok i') :
    i'.module = i.module := by
  induction segments generalizing i with
  | nil =>
    cases h
    rfl
  | cons s rest ih =>
    unfold writeSegments at h
    split at h
    · exact ih h
    · dsimp only at h
      split at h
      · have same := ih h
        exact same
      · cases h

/-- Writing segments keeps the size of the memory. -/
theorem size_writeSegments {segments : List Segment} (h : i.writeSegments segments = .ok i') :
    i'.memory.size = i.memory.size := by
  induction segments generalizing i with
  | nil =>
    cases h
    rfl
  | cons s rest ih =>
    unfold writeSegments at h
    split at h
    · exact ih h
    · dsimp only at h
      split at h
      · exact (ih h).trans (LinearMemory.size_overwrite _ _ _)
      · cases h

end Instance

end Wasm

/-! ### What allocators are relied on for -/

namespace Engine

open Wasm (Val Instance Thread Finishes)

/-- The calls of imported functions that succeed while no call of the engine is on the stack: texts
are printed when nobody wants them. -/
def Unanswered (config : Config) (links : List HostImport) (f : Nat) (args : List Val) : Prop :=
  config.logGuestOutput = false ∧ links[f]? = some .debugStr ∧ ∃ text, args = [.i32 text]

/-- The address that an allocator returns. -/
def address? : List Val → Option UInt32
  | .i32 n :: _ => some n
  | .i64 n :: _ => some n.toUInt32
  | _ => none

/-- The allocator of a package, asked for so many bytes, returns an address that is not null, and
the bytes there are within the memory. -/
structure Returns (config : Config) (p : Package) (links : List HostImport) (i : Instance)
    (size : UInt32) (address : UInt32) (i' : Instance) : Prop where
  ran : ∃ f results, p.module.exportedFunc? Package.allocExport = some f ∧
    Finishes (Unanswered config links) i (.calling f [.i32 size] 1) results i' ∧
    address? results = some address
  nonnull : address ≠ 0
  within : address.toNat + size.toNat ≤ i'.memory.size

/-- The start function of a module, if it has one, has come to its end. -/
def Begins (config : Config) (links : List HostImport) (m : Wasm.Module) (i i' : Instance) : Prop :=
  match m.start with
  | none => i' = i
  | some f => ∃ results, Finishes (Unanswered config links) i (.calling f [] 0) results i'

/-- A module of a package after its start function has run. -/
def Starts (config : Config) (p : Package) (links : List HostImport) (i : Instance) : Prop :=
  ∃ allocated filled, p.module.allocate config.maxMemoryBytes = some allocated ∧
    allocated.writeSegments p.module.segments = .ok filled ∧
    Begins config links p.module filled i

/-- The module of a package has been started and used by the engine, and these are the bytes that
its allocator has returned so far. -/
inductive Allotted (config : Config) (p : Package) (links : List HostImport) :
    Instance → Set Nat → Prop
  | started {i : Instance} (h : Starts config p links i) : Allotted config p links i ∅
  | given {i i' : Instance} {A : Set Nat} {size address : UInt32} (h : Allotted config p links i A)
      (returns : Returns config p links i size address i') :
      Allotted config p links i' (A ∪ span address.toNat size.toNat)
  | written {i : Instance} {A : Set Nat} {address : Nat} {bs : Bytes}
      (h : Allotted config p links i A) (inside : span address bs.length ⊆ A) :
      Allotted config p links { i with memory := i.memory.overwrite address bs } A

/-- The allocator of a package returns bytes apart from all that it has returned before, and it does
not write to those. -/
def KeepsApart (config : Config) (p : Package) : Prop :=
  ∀ {links : List HostImport} {i i' : Instance} {A : Set Nat} {size address : UInt32},
    p.module.imports.mapM HostImport.link = .ok links → Allotted config p links i A →
    Returns config p links i size address i' →
      Disjoint A (span address.toNat size.toNat) ∧ LinearMemory.AgreesOn A i.memory i'.memory

/-- The memory of a package that was built stays within what 32 bits can address. -/
theorem Allotted.isAddressable {config : Config} {p : Package} {links : List HostImport}
    {i : Instance} {A : Set Nat} (h : Allotted config p links i A)
    (valid : p.module.validate = .ok ()) : i.IsAddressable := by
  induction h with
  | started h =>
    obtain ⟨allocated, filled, first, second, last⟩ := h
    have sized : filled.IsAddressable := by
      have same := Instance.size_writeSegments second
      exact Nat.le_trans (Nat.le_of_eq same) (Instance.IsAddressable.allocate valid first)
    unfold Begins at last
    split at last
    · exact last ▸ sized
    · obtain ⟨results, ran⟩ := last
      exact sized.finishes ran
  | given _ returns ih =>
    obtain ⟨f, results, -, ran, -⟩ := returns.ran
    exact ih.finishes ran
  | written _ _ ih =>
    rw [Instance.IsAddressable, LinearMemory.size_overwrite]
    exact ih

end Engine

end JigLedger
