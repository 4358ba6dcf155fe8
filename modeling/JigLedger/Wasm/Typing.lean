import JigLedger.Wasm.Module

/-!
# Typing of modules

Only modules that are well typed are run. The check follows the code with the types on the operand
stack; after an instruction that never goes on, the stack holds whatever is asked of it.
-/

namespace JigLedger.Wasm

/-- What instructions can refer to. -/
structure Scope where
  funcs : List FuncType
  globals : List GlobalType
  hasMemory : Bool
  locals : List NumType
  /-- What a branch to each enclosing block carries, the innermost first. -/
  labels : List (List NumType)
  results : List NumType

/-- The types on the operand stack of a block, the topmost first; an unknown type is one that
nothing depends on. -/
structure Operands where
  types : List (Option NumType)
  /-- Below these types the stack holds whatever is asked of it. -/
  bottomless : Bool

namespace Operands

/-- A stack with the given types, the last one topmost. -/
def ofTypes (types : List NumType) : Operands := ⟨types.reverse.map some, false⟩

/-- The stack after an instruction that never goes on. -/
def anything : Operands := ⟨[], true⟩

/-- The stack with one more type. -/
def push (s : Operands) (t : NumType) : Operands := { s with types := some t :: s.types }

/-- The stack with more types, the last one topmost. -/
def pushAll (s : Operands) (ts : List NumType) : Operands := ts.foldl push s

/-- The topmost type and the stack without it. -/
def popAny (s : Operands) : Option (Option NumType × Operands) :=
  match s.types with
  | t :: rest => some (t, { s with types := rest })
  | [] => if s.bottomless then some (none, s) else none

/-- The stack without its topmost type, which has to be the given one. -/
def pop (s : Operands) (t : NumType) : Option Operands := do
  let (found, s) ← s.popAny
  if found = none ∨ found = some t then some s else none

/-- The stack without its topmost types, which have to be the given ones, the last one topmost. -/
def popAll (s : Operands) (ts : List NumType) : Option Operands :=
  ts.reverse.foldlM pop s

/-- Nothing is left on the stack. -/
def isEmpty (s : Operands) : Bool := s.types.isEmpty

/-- Replaces types on top of the stack by others. -/
def apply (s : Operands) (params results : List NumType) : Option Operands := do
  return (← s.popAll params).pushAll results

end Operands

namespace Scope

/-- The scope inside a block. -/
def enter (s : Scope) (label : List NumType) : Scope := { s with labels := label :: s.labels }

/-- The types that a select chooses from; they have to agree. -/
def select (s : Operands) : Option Operands := do
  let (a, s) ← (← s.pop .i32).popAny
  let (b, s) ← s.popAny
  match a, b with
  | some a, some b => if a = b then some (s.push a) else none
  | some t, none | none, some t => some (s.push t)
  | none, none => some { s with types := none :: s.types }

mutual

/-- The operand stack after an instruction; nothing when the instruction does not fit. -/
def check (s : Scope) : Instr → Operands → Option Operands
  | .unreachable, _ => some .anything
  | .nop, st => some st
  | .drop, st => st.popAny.map (·.2)
  | .select, st => select st
  | .exit, st => do
    let _ ← st.popAll s.results
    return .anything
  | .block t body, st => do
    let below ← st.popAll t.params
    let inside ← checkAll (s.enter t.results) body (.ofTypes t.params)
    let rest ← inside.popAll t.results
    if rest.isEmpty then some (below.pushAll t.results) else none
  | .loop t body, st => do
    let below ← st.popAll t.params
    let inside ← checkAll (s.enter t.params) body (.ofTypes t.params)
    let rest ← inside.popAll t.results
    if rest.isEmpty then some (below.pushAll t.results) else none
  | .cond t yes no, st => do
    let below ← (← st.pop .i32).popAll t.params
    let first ← checkAll (s.enter t.results) yes (.ofTypes t.params)
    let firstRest ← first.popAll t.results
    let second ← checkAll (s.enter t.results) no (.ofTypes t.params)
    let secondRest ← second.popAll t.results
    if firstRest.isEmpty && secondRest.isEmpty then some (below.pushAll t.results) else none
  | .br depth, st => do
    let label ← s.labels[depth]?
    let _ ← st.popAll label
    return .anything
  | .brIf depth, st => do
    let label ← s.labels[depth]?
    (← st.pop .i32).apply label label
  | .brTable depths otherwise, st => do
    let st ← st.pop .i32
    let last ← s.labels[otherwise]?
    let _ ← st.popAll last
    let fits (depth : Nat) : Option Unit := do
      let label ← s.labels[depth]?
      if label.length ≠ last.length then none
      else do
        let _ ← st.popAll label
        return ()
    depths.forM fits
    return .anything
  | .call f, st => do
    let t ← s.funcs[f]?
    st.apply t.params t.results
  | .localGet i, st => do return st.push (← s.locals[i]?)
  | .localSet i, st => do st.pop (← s.locals[i]?)
  | .localTee i, st => do
    let t ← s.locals[i]?
    st.apply [t] [t]
  | .globalGet i, st => do return st.push (← s.globals[i]?).type
  | .globalSet i, st => do
    let g ← s.globals[i]?
    if g.mutable then st.pop g.type else none
  | .load a, st => if s.hasMemory then st.apply [.i32] [a.type] else none
  | .store a, st => if s.hasMemory then st.apply [.i32, a.type] [] else none
  | .memorySize, st => if s.hasMemory then some (st.push .i32) else none
  | .memoryGrow, st => if s.hasMemory then st.apply [.i32] [.i32] else none
  | .const n, st => some (st.push n.type)
  | .isZero t, st => st.apply [t] [.i32]
  | .unary t _, st => st.apply [t] [t]
  | .binary t _, st => st.apply [t, t] [t]
  | .compare t _, st => st.apply [t, t] [.i32]
  | .convert c, st => st.apply [c.source] [c.target]

/-- The operand stack after several instructions. -/
def checkAll (s : Scope) : List Instr → Operands → Option Operands
  | [], st => some st
  | i :: rest, st => do
    let st ← check s i st
    checkAll s rest st

end

/-- The body of a function leaves exactly its results. -/
def checkBody (s : Scope) (body : List Instr) : Bool :=
  ((checkAll (s.enter s.results) body (.ofTypes [])).bind (·.popAll s.results)).any (·.isEmpty)

end Scope

namespace Module

/-- The scope of the code of a function. -/
def scope (m : Module) (f : Func) : Scope where
  funcs := m.funcTypes
  globals := m.globalTypes
  hasMemory := !m.allMemories.isEmpty
  locals := f.type.params ++ f.locals
  labels := []
  results := f.type.results

/-- The instruction may stand in the code of a first value: it computes without memory and reads
only globals that never change. -/
def isConstant (globals : List GlobalType) : Instr → Bool
  | .const _ => true
  | .globalGet i => (globals[i]?).any (! ·.mutable)
  | .binary _ op => op = .add || op = .sub || op = .mul
  | _ => false

/-- The code of a first value computes one number of the given type. -/
def checkConstant (globals : List GlobalType) (code : List Instr) (t : NumType) : Bool :=
  code.all (isConstant globals) &&
    Scope.checkBody ⟨[], globals, false, [], [], [t]⟩ code

/-- Each global is computed from those before it. -/
def checkGlobals (before : List GlobalType) : List Global → Bool
  | [] => true
  | g :: rest =>
    checkConstant before g.init g.type.type && checkGlobals (before ++ [g.type]) rest

/-- The greatest number of pages that a memory can have. -/
def maxPages : Nat := 65536

/-- The limits of a memory are in order. -/
def checkLimits (l : Limits) : Bool :=
  l.least ≤ maxPages && l.greatest.all fun n => l.least ≤ n && n ≤ maxPages

/-- An export leads to something. -/
def checkExport (m : Module) (e : Export) : Bool :=
  match e.target with
  | .func idx => idx < m.funcTypes.length
  | .memory idx => idx < m.allMemories.length
  | .global idx => idx < m.globalTypes.length

/-- A function without parameters and results can be run at the start. -/
def checkStart (m : Module) : Bool :=
  m.start.all fun idx => m.funcTypes[idx]? = some ⟨[], []⟩

/-- A segment is written to memory at a computed address. -/
def checkSegment (m : Module) (s : Segment) : Bool :=
  s.address.all fun code => !m.allMemories.isEmpty && checkConstant m.globalTypes code .i32

/-- Fails unless everything in a module fits together. -/
def validate (m : Module) : Except ModuleFault Unit :=
  if !m.allMemories.all checkLimits then .error (.invalid "memory size")
  else if m.allMemories.length > 1 then .error (.invalid "multiple memories")
  else if !checkGlobals m.importedGlobals m.globals then .error (.invalid "global")
  else if !m.exports.all m.checkExport then .error (.invalid "unknown export")
  else if !decide (m.exports.map (·.name)).Nodup then .error (.invalid "duplicate export name")
  else if !m.checkStart then .error (.invalid "start function")
  else if !m.segments.all m.checkSegment then .error (.invalid "data segment")
  else if !m.funcs.all (fun f => (m.scope f).checkBody f.body) then
    .error (.invalid "type mismatch")
  else .ok ()

end Module

end JigLedger.Wasm
