import JigLedger.Proofs.Allocator

/-!
# Allocators that give out pages

The simplest allocator that can be relied on gives whatever it is asked for a page of its own: it
returns the end of memory and lets memory grow by a page. If memory cannot grow, or a page is not
enough, what it returns is not within memory, and the engine goes no further. Whatever a guest does,
its memory has whole pages and never becomes smaller.
-/

namespace JigLedger

namespace Wasm

/-- An allocator that gives whatever it is asked for a page of its own, at the end of memory. -/
def pageAllocator : Func where
  type := ⟨[.i32], [.i32]⟩
  locals := []
  body := [.memorySize, .const (.i32 16), .binary .i32 .shl, .const (.i32 1), .memoryGrow, .drop]

/-- The code of a function is that of this allocator. -/
def isPageAllocator : Func → Bool
  | ⟨type, [], [.memorySize, .const (.i32 bits), .binary .i32 .shl, .const (.i32 count),
      .memoryGrow, .drop]⟩ => type = ⟨[.i32], [.i32]⟩ && bits = 16 && count = 1
  | _ => false

theorem eq_of_isPageAllocator {f : Func} (h : isPageAllocator f = true) : f = pageAllocator := by
  unfold isPageAllocator at h
  split at h
  case h_1 type bits count =>
    simp only [Bool.and_eq_true, decide_eq_true_eq] at h
    obtain ⟨⟨rfl, rfl⟩, rfl⟩ := h
    rfl
  case h_2 => cases h

/-- The memory grows if it may, and the code goes on either way. -/
theorem Instance.step_memoryGrow (i : Instance) (count : UInt32) (locals st : List Val)
    (rest : List Instr) (labels : List Label) (arity : Nat) (callers : List Activation) :
    i.step ⟨⟨locals, .i32 count :: st, .memoryGrow :: rest, labels, arity⟩, callers⟩ =
      .running ((i.grow? count.toNat).getD i) ⟨⟨locals, .i32 (if (i.grow? count.toNat).isSome
        then UInt32.ofNat i.pages else growFailure) :: st, rest, labels, arity⟩, callers⟩ := by
  rcases grown : i.grow? count.toNat with _ | i' <;>
    simp [step, perform, simple, grown, Activation.withStack]

/-- It returns the end of memory and adds a page there, if there may be one more page. -/
theorem finishes_pageAllocator {passes : Nat → List Val → Prop} {i j : Instance} {size : UInt32}
    {results : List Val} (func : i.module.funcs[0]? = some pageAllocator)
    (importless : i.module.imports = [])
    (run : Finishes passes i (.calling 0 [.i32 size] 1) results j) :
    results = [.i32 (UInt32.ofNat i.pages <<< 16)] ∧ j = (i.grow? 1).getD i := by
  have imported : i.module.importedFuncs = [] := by
    rw [Module.importedFuncs, importless]
    rfl
  have type : i.module.funcTypes[0]? = some ⟨[.i32], [.i32]⟩ := by
    rw [Module.funcTypes, imported, List.nil_append, List.getElem?_map, func]
    rfl
  have entered : i.step (.calling 0 [.i32 size] 1) =
      .running i ⟨⟨[.i32 size], [], pageAllocator.body, [], 1⟩, [⟨[], [], [], [], 1⟩]⟩ := by
    change Thread.call i ⟨⟨[], [.i32 size], [], [], 1⟩, []⟩ 0 = _
    simp [Thread.call, type, imported, func, Thread.maxActivations]
    rfl
  have shifted := (((run.of_running entered).of_running rfl).of_running rfl).of_running rfl
  have grown := (shifted.of_running rfl).of_running (Instance.step_memoryGrow ..)
  obtain ⟨same, rfl⟩ := ((grown.of_running rfl).of_running rfl).of_finished rfl
  exact ⟨same, rfl⟩

namespace Instance

variable {i : Instance}

/-- Whether memory grows or not, its bytes stay the same. -/
theorem grow?_getD (whole : pageSize ∣ i.memory.size) (count : Nat) :
    ((i.grow? count).getD i).module = i.module ∧
    pageSize ∣ ((i.grow? count).getD i).memory.size ∧
    i.memory.size ≤ ((i.grow? count).getD i).memory.size ∧
    ∀ a, ((i.grow? count).getD i).memory.byte a = i.memory.byte a := by
  rcases grown : i.grow? count with _ | i'
  · exact ⟨rfl, whole, Nat.le_refl _, fun _ => rfl⟩
  · unfold Instance.grow? at grown
    dsimp only at grown
    split at grown <;> cases grown
    have size := Nat.div_mul_cancel whole
    have more : i.memory.size ≤ (i.pages + count) * pageSize := by
      rw [Nat.add_mul, pages, size]
      exact Nat.le_add_right _ _
    refine ⟨rfl, ?_, ?_, LinearMemory.byte_resize more⟩
    · exact LinearMemory.size_resize (m := i.memory) _ ▸ Nat.dvd_mul_left _ _
    · exact LinearMemory.size_resize (m := i.memory) _ ▸ more

end Instance

variable {i j : Instance}

/-- A run leaves whole pages, and not fewer than before. -/
theorem Finishes.size_le {passes : Nat → List Val → Prop} {t : Thread} {results : List Val}
    (run : Finishes passes i t results j) (whole : pageSize ∣ i.memory.size) :
    pageSize ∣ j.memory.size ∧ i.memory.size ≤ j.memory.size := by
  induction run with
  | done _ => exact ⟨whole, Nat.le_refl _⟩
  | @step i i' j t t' results running _ ih =>
    have grows : pageSize ∣ i'.memory.size ∧ i.memory.size ≤ i'.memory.size := by
      obtain same | ⟨count, grown⟩ := Instance.size_step running
      · exact ⟨same ▸ whole, Nat.le_of_eq same.symm⟩
      · obtain ⟨-, pages, more, -⟩ := Instance.grow?_getD whole count
        rw [grown] at pages more
        exact ⟨pages, more⟩
    obtain ⟨pages, more⟩ := ih grows.1
    exact ⟨pages, grows.2.trans more⟩
  | pass _ _ _ ih => exact ih whole

/-- A module begins with whole pages. -/
theorem Module.dvd_size_allocate {m : Module} {maxBytes : Nat} (h : m.allocate maxBytes = some i) :
    pageSize ∣ i.memory.size := by
  unfold Module.allocate at h
  split at h <;> cases h
  change pageSize ∣ m.initialBytes
  unfold Module.initialBytes
  split
  · exact Nat.dvd_mul_left _ _
  · exact Nat.dvd_zero _

end Wasm

namespace Engine

open Wasm (Instance pageAllocator isPageAllocator eq_of_isPageAllocator finishes_pageAllocator
  pageSize Module.allocate Module.dvd_size_allocate)

variable {config : Config} {p : Package} {links : List HostImport} {i : Instance} {A : Set Nat}

/-- The first function of a package gives out pages and is its allocator, and nothing else is done
before the package is used. -/
structure Paged (p : Package) : Prop where
  importless : p.module.imports = []
  func : p.module.funcs[0]? = some pageAllocator
  unstarted : p.module.start = none
  exported : p.module.exportedFunc? Package.allocExport = some 0

/-- A package is seen to be of this kind. -/
def isPaged (p : Package) : Bool :=
  p.module.imports.isEmpty && p.module.funcs[0]?.any isPageAllocator && p.module.start.isNone &&
    p.module.exportedFunc? Package.allocExport = some 0

theorem paged_of_isPaged (h : isPaged p = true) : Paged p := by
  simp only [isPaged, Bool.and_eq_true, decide_eq_true_eq, List.isEmpty_iff,
    Option.isNone_iff_eq_none, Option.any_eq_true] at h
  obtain ⟨⟨⟨importless, f, first, func⟩, unstarted⟩, exported⟩ := h
  exact ⟨importless, eq_of_isPageAllocator func ▸ first, unstarted, exported⟩

/-- What has been returned of such a package is below the end of memory. -/
structure Paged.Within (p : Package) (i : Instance) (A : Set Nat) : Prop where
  module : i.module = p.module
  whole : pageSize ∣ i.memory.size
  below : ∀ a ∈ A, a < i.memory.size

theorem Paged.returns (paged : Paged p) (within : Paged.Within p i A) {i' : Instance}
    {size address : UInt32} (h : Returns config p links i size address i') :
    address = UInt32.ofNat i.pages <<< 16 ∧ i' = (i.grow? 1).getD i := by
  obtain ⟨f, results, exported, ran, read⟩ := h.ran
  cases exported.symm.trans paged.exported
  obtain ⟨rfl, same⟩ := finishes_pageAllocator (within.module ▸ paged.func)
    (within.module ▸ paged.importless) ran
  exact ⟨(Option.some.inj read).symm, same⟩

theorem Paged.within (paged : Paged p) (h : Allotted config p links i A) :
    Paged.Within p i A := by
  induction h with
  | started h =>
    obtain ⟨allocated, filled, first, second, last⟩ := h
    rw [Begins, paged.unstarted] at last
    subst last
    have whole := Module.dvd_size_allocate first
    unfold Module.allocate at first
    split at first <;> cases first
    refine ⟨Instance.module_writeSegments second, ?_, nofun⟩
    rwa [Instance.size_writeSegments second]
  | given _ returns ih =>
    obtain ⟨-, rfl⟩ := paged.returns ih returns
    obtain ⟨module, whole, more, -⟩ := Instance.grow?_getD ih.whole 1
    refine ⟨module.trans ih.module, whole, ?_⟩
    rintro a (ha | ha)
    · exact Nat.lt_of_lt_of_le (ih.below a ha) more
    · exact Nat.lt_of_lt_of_le (mem_span.1 ha).2 returns.within
  | written _ _ ih =>
    exact ⟨ih.module, (LinearMemory.size_overwrite ..).symm ▸ ih.whole,
      (LinearMemory.size_overwrite ..).symm ▸ ih.below⟩

/-- An allocator that gives whatever it is asked for a page of its own keeps everything apart. -/
theorem Paged.keepsApart (paged : Paged p) (valid : p.module.validate = .ok ()) :
    KeepsApart config p := by
  intro links i i' A size address _ allotted returns
  have within := paged.within allotted
  have addressable := allotted.isAddressable valid
  obtain ⟨rfl, rfl⟩ := paged.returns within returns
  obtain ⟨-, -, -, same⟩ := Instance.grow?_getD within.whole 1
  refine ⟨?_, fun a _ => (same a).symm⟩
  have pages : i.memory.size = i.pages * 65536 := (Nat.div_mul_cancel within.whole).symm
  have some : i.pages ≠ 65536 := by
    intro full
    rw [full] at returns
    exact returns.nonnull (by decide)
  have place : (UInt32.ofNat i.pages <<< 16).toNat = i.memory.size := by
    rw [Instance.IsAddressable, UInt32.size] at addressable
    rw [UInt32.toNat_shiftLeft, UInt32.toNat_ofNat_of_lt' (by rw [UInt32.size]; omega), pages]
    change i.pages <<< 16 % 2 ^ 32 = _
    rw [Nat.shiftLeft_eq]
    omega
  rw [Set.disjoint_left]
  intro a ha hb
  have below := within.below a ha
  have above := (mem_span.1 hb).1
  omega

end Engine

end JigLedger
