import JigLedger.Wasm.Module

/-!
# The guest machine

A thread is the stack of functions that are being run, each with its operands, the code that
remains and the blocks that are open. One step does one instruction, or leaves one block or one
function. A step needs the module and its memory and globals, and nothing else: when the code calls
an imported function, the thread stops and waits for the results.
-/

namespace JigLedger.Wasm

/-- A module that is running: its memory and its globals. -/
structure Instance where
  module : Module
  memory : LinearMemory
  globals : List Val
  /-- The greatest number of bytes that memory may grow to. -/
  maxBytes : Nat

namespace Instance

/-- The number of pages of memory. -/
def pages (i : Instance) : Nat := i.memory.size / pageSize

/-- The greatest number of pages that the module declares for its memory. -/
def declaredPages (i : Instance) : Nat :=
  match i.module.memories with
  | [⟨_, some greatest⟩] => min greatest 65536
  | _ => 65536

/-- The instance with `count` more pages of memory, if that many are allowed. -/
def grow? (i : Instance) (count : Nat) : Option Instance :=
  let pages := i.pages + count
  if pages ≤ i.declaredPages ∧ pages * pageSize ≤ i.maxBytes then
    some { i with memory := i.memory.resize (pages * pageSize) }
  else none

end Instance

/-- An open block. -/
structure Label where
  /-- The number of operands that a branch to the block carries. -/
  arity : Nat
  /-- The code that a branch goes on with inside of the block: that of a loop. -/
  again : Option (List Instr)
  /-- The operands below those of the block. -/
  below : List Val
  /-- The code after the block. -/
  after : List Instr

/-- A function that is being run. -/
structure Activation where
  locals : List Val
  /-- The operands, the topmost first. -/
  stack : List Val
  code : List Instr
  /-- The open blocks, the innermost first. -/
  labels : List Label
  /-- The number of results. -/
  arity : Nat

/-- The functions that are being run, the innermost apart from its callers. -/
structure Thread where
  current : Activation
  callers : List Activation

/-- What a step leads to. -/
inductive Outcome where
  /-- The thread goes on. -/
  | running (i : Instance) (t : Thread)
  /-- The outermost function has returned; its results, the last one first. -/
  | finished (results : List Val)
  /-- The thread waits for the results of an imported function; the arguments, the last one
  first. -/
  | waiting (function : Nat) (args : List Val) (t : Thread)
  | trapped (trap : Trap)
  /-- The code is not well typed. -/
  | stuck

namespace Activation

/-- Goes on with other operands. -/
def withStack (a : Activation) (stack : List Val) : Activation := { a with stack := stack }

/-- Opens a block with `params` of the operands. -/
def enter (a : Activation) (params arity : Nat) (again : Option (List Instr))
    (body : List Instr) : Activation :=
  { a with
    stack := a.stack.take params
    code := body
    labels := ⟨arity, again, a.stack.drop params, a.code⟩ :: a.labels }

/-- Goes to the end of an open block, or to the start of a loop. With no block at that depth the
function is left. -/
def branch (a : Activation) (depth : Nat) : Activation :=
  match a.labels.drop depth with
  | [] => { a with stack := a.stack.take a.arity, code := [], labels := [] }
  | label :: outer =>
    match label.again with
    | some body =>
      { a with
        stack := a.stack.take label.arity
        code := body
        labels := label :: outer }
    | none =>
      { a with
        stack := a.stack.take label.arity ++ label.below
        code := label.after
        labels := outer }

end Activation

namespace Thread

/-- The greatest number of functions that can be inside each other. -/
def maxActivations : Nat := 10000

/-- The thread that calls a function, imported or not; the arguments are in their order. -/
def calling (function : Nat) (args : List Val) (results : Nat) : Thread :=
  ⟨⟨[], args.reverse, [.call function], [], results⟩, []⟩

/-- The thread with more operands: the results that it waited for, the last one first. -/
def resume (t : Thread) (results : List Val) : Thread :=
  { t with current := t.current.withStack (results ++ t.current.stack) }

/-- The thread inside one more function. -/
def enter (t : Thread) (f : Func) (args : List Val) : Thread :=
  let locals := args.reverse ++ f.locals.map Val.zero
  ⟨⟨locals, [], f.body, [], f.type.results.length⟩, t.current :: t.callers⟩

/-- Calls a function with arguments from the stack. -/
def call (i : Instance) (t : Thread) (function : Nat) : Outcome :=
  match i.module.funcTypes[function]? with
  | none => .stuck
  | some type =>
    let count := type.params.length
    let args := t.current.stack.take count
    let t : Thread := { t with current := t.current.withStack (t.current.stack.drop count) }
    let imported := i.module.importedFuncs.length
    if args.length ≠ count then .stuck
    else if function < imported then .waiting function args t
    else
      match i.module.funcs[function - imported]? with
      | none => .stuck
      | some f =>
        if t.callers.length < maxActivations then .running i (t.enter f args)
        else .trapped .stackOverflow

/-- Leaves a block or a function at the end of its code. -/
def leave (i : Instance) (t : Thread) : Outcome :=
  let a := t.current
  match a.labels, t.callers with
  | label :: labels, _ =>
    .running i { t with
      current := { a with stack := a.stack ++ label.below, code := label.after, labels := labels } }
  | [], [] => .finished (a.stack.take a.arity)
  | [], caller :: callers =>
    .running i ⟨caller.withStack (a.stack.take a.arity ++ caller.stack), callers⟩

end Thread

namespace Instance

/-- The bytes at an address that a load or a store refers to are inside the memory. -/
def reaches (i : Instance) (base : UInt32) (a : Access) : Bool :=
  i.memory.contains (base.toNat + a.offset) a.width

/-- The number that a load gives. -/
def loadNum (i : Instance) (base : UInt32) (a : Access) : Val :=
  let n := ofLittleEndian (i.memory.slice (base.toNat + a.offset) a.width)
  let bits := 8 * a.width
  if a.signed && n.testBit (bits - 1) then .ofBits a.type (n + (UInt64.size - 1 <<< bits))
  else .ofBits a.type n

/-- The instance after a store. -/
def storeNum (i : Instance) (base : UInt32) (a : Access) (n : Val) : Instance :=
  { i with memory := i.memory.overwrite (base.toNat + a.offset) (littleEndian a.width n.bits) }

/-- The answer of a memory that could not grow. -/
def growFailure : UInt32 := 0xFFFFFFFF

/-- The instruction `instr` in a function whose remaining code is already that after it. Blocks and
calls have been dealt with. -/
def simple (i : Instance) (a : Activation) : Instr → List Val → Option (Instance × Activation)
  | .nop, _ => some (i, a)
  | .drop, _ :: st => some (i, a.withStack st)
  | .select, .i32 c :: y :: x :: st => some (i, a.withStack ((if c = 0 then y else x) :: st))
  | .localGet idx, st => do return (i, a.withStack ((← a.locals[idx]?) :: st))
  | .localSet idx, n :: st => some (i, { a with locals := a.locals.set idx n, stack := st })
  | .localTee idx, n :: st => some (i, { a with locals := a.locals.set idx n, stack := n :: st })
  | .globalGet idx, st => do return (i, a.withStack ((← i.globals[idx]?) :: st))
  | .globalSet idx, n :: st =>
    some ({ i with globals := i.globals.set idx n }, a.withStack st)
  | .memorySize, st => some (i, a.withStack (.i32 (UInt32.ofNat i.pages) :: st))
  | .memoryGrow, .i32 count :: st =>
    match i.grow? count.toNat with
    | some grown => some (grown, a.withStack (.i32 (UInt32.ofNat i.pages) :: st))
    | none => some (i, a.withStack (.i32 growFailure :: st))
  | .const n, st => some (i, a.withStack (n :: st))
  | .isZero _, n :: st => do return (i, a.withStack ((← n.isZero) :: st))
  | .unary _ op, n :: st => do return (i, a.withStack ((← n.unary op) :: st))
  | .compare _ op, y :: x :: st => do return (i, a.withStack ((← Val.compare op x y) :: st))
  | .convert c, n :: st => do return (i, a.withStack ((← c.eval n) :: st))
  | _, _ => none

/-- One instruction of a function whose remaining code is already that after it. -/
def perform (i : Instance) (t : Thread) (instr : Instr) : Outcome :=
  let a := t.current
  let go (a : Activation) : Outcome := .running i { t with current := a }
  match instr, a.stack with
  | .unreachable, _ => .trapped .unreachable
  | .exit, _ => go (a.branch a.labels.length)
  | .block type body, _ => go (a.enter type.params.length type.results.length none body)
  | .loop type body, _ => go (a.enter type.params.length type.params.length (some body) body)
  | .cond type yes no, .i32 c :: st =>
    go ((a.withStack st).enter type.params.length type.results.length none
      (if c = 0 then no else yes))
  | .br depth, _ => go (a.branch depth)
  | .brIf depth, .i32 c :: st =>
    go (if c = 0 then a.withStack st else (a.withStack st).branch depth)
  | .brTable depths otherwise, .i32 c :: st =>
    go ((a.withStack st).branch (depths[c.toNat]?.getD otherwise))
  | .call f, _ => t.call i f
  | .load access, .i32 base :: st =>
    if i.reaches base access then go (a.withStack (i.loadNum base access :: st))
    else .trapped .memoryOutOfBounds
  | .store access, n :: .i32 base :: st =>
    if i.reaches base access then
      .running (i.storeNum base access n) { t with current := a.withStack st }
    else .trapped .memoryOutOfBounds
  | .binary _ op, y :: x :: st =>
    match Val.binary op x y with
    | some (.ok n) => go (a.withStack (n :: st))
    | some (.error trap) => .trapped trap
    | none => .stuck
  | instr, st =>
    match i.simple a instr st with
    | some (i, a) => .running i { t with current := a }
    | none => .stuck

/-- One step of a thread. -/
def step (i : Instance) (t : Thread) : Outcome :=
  match t.current.code with
  | [] => t.leave i
  | instr :: rest => i.perform { t with current := { t.current with code := rest } } instr

end Instance

/-! ### Instantiation -/

namespace Module

/-- The number that code for a first value computes, given the globals before it. -/
def constant? (globals : List Val) : List Instr → List Val → Option Val
  | [], [n] => some n
  | .const n :: rest, st => constant? globals rest (n :: st)
  | .globalGet idx :: rest, st =>
    match globals[idx]? with
    | some n => constant? globals rest (n :: st)
    | none => none
  | .binary _ op :: rest, y :: x :: st =>
    match Val.binary op x y with
    | some (.ok n) => constant? globals rest (n :: st)
    | _ => none
  | _, _ => none

/-- The first values of the globals. -/
def initialGlobals (m : Module) : List Val :=
  m.globals.foldl (fun values g =>
    values ++ [(constant? values g.init []).getD (.zero g.type.type)]) []

/-- The number of bytes of memory at the start. -/
def initialBytes (m : Module) : Nat :=
  match m.memories with
  | [limits] => limits.least * pageSize
  | _ => 0

/-- An instance of a module that imports nothing but functions, before its segments are written. -/
def allocate (m : Module) (maxBytes : Nat) : Option Instance :=
  if m.initialBytes ≤ maxBytes then
    some ⟨m, .zeros m.initialBytes, m.initialGlobals, maxBytes⟩
  else none

end Module

namespace Instance

/-- Writes segments to the memory of an instance. -/
def writeSegments (i : Instance) : List Segment → Except Trap Instance
  | [] => .ok i
  | s :: rest =>
    match s.address with
    | none => writeSegments i rest
    | some code =>
      let address := ((Module.constant? i.globals code []).map Val.bits).getD 0
      if i.memory.contains address s.bytes.length then
        writeSegments { i with memory := i.memory.overwrite address s.bytes } rest
      else .error .memoryOutOfBounds

end Instance

end JigLedger.Wasm
