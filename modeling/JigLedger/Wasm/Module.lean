import JigLedger.Memory.Basic
import JigLedger.Wasm.Number

/-!
# Guest modules

A module after reading: all indices of types have been looked up, and bodies are trees of
instructions. Functions and globals have one numbering each, in which imports come first.
-/

namespace JigLedger.Wasm

/-- The bytes of one page of memory. -/
def pageSize : Nat := 65536

/-- The type of a function or a block: what it takes from the stack and what it leaves there. -/
structure FuncType where
  params : List NumType
  results : List NumType
deriving DecidableEq, Repr

/-- The type of a global. -/
structure GlobalType where
  type : NumType
  mutable : Bool
deriving DecidableEq, Repr

/-- The number of pages of a memory at the start and the greatest number it may grow to. -/
structure Limits where
  least : Nat
  greatest : Option Nat
deriving DecidableEq, Repr

/-- An access to memory. -/
structure Access where
  /-- The type of the number that is loaded or stored. -/
  type : NumType
  /-- The number of bytes in memory. -/
  width : Nat
  /-- A narrow number is extended by its sign. -/
  signed : Bool
  /-- A constant that is added to the address. -/
  offset : Nat
deriving DecidableEq, Repr

/-- An instruction. -/
inductive Instr where
  | unreachable
  | nop
  | drop
  | select
  | exit
  | block (type : FuncType) (body : List Instr)
  | loop (type : FuncType) (body : List Instr)
  | cond (type : FuncType) (yes no : List Instr)
  | br (depth : Nat)
  | brIf (depth : Nat)
  | brTable (depths : List Nat) (otherwise : Nat)
  | call (function : Nat)
  | localGet (idx : Nat)
  | localSet (idx : Nat)
  | localTee (idx : Nat)
  | globalGet (idx : Nat)
  | globalSet (idx : Nat)
  | load (access : Access)
  | store (access : Access)
  | memorySize
  | memoryGrow
  | const (n : Val)
  | isZero (type : NumType)
  | unary (type : NumType) (op : UnaryOp)
  | binary (type : NumType) (op : BinaryOp)
  | compare (type : NumType) (op : Comparison)
  | convert (conversion : Conversion)
deriving Repr

instance : Inhabited Instr := ⟨.nop⟩

/-- A function of a module. -/
structure Func where
  type : FuncType
  locals : List NumType
  body : List Instr
deriving Repr

/-- What is asked of whoever runs a module. -/
inductive ImportType where
  | func (type : FuncType)
  | memory (limits : Limits)
  | global (type : GlobalType)
deriving DecidableEq, Repr

/-- An import by the name of its module and its own. -/
structure Import where
  module : String
  name : String
  type : ImportType
deriving DecidableEq, Repr

/-- What an export leads to, by index. -/
inductive ExportTarget where
  | func (idx : Nat)
  | memory (idx : Nat)
  | global (idx : Nat)
deriving DecidableEq, Repr

/-- An export. -/
structure Export where
  name : String
  target : ExportTarget
deriving DecidableEq, Repr

/-- A global of a module and the code of its first value. -/
structure Global where
  type : GlobalType
  init : List Instr
deriving Repr

/-- Bytes that are written to memory at the start, at an address that is given by code. Without an
address they are not written. -/
structure Segment where
  address : Option (List Instr)
  bytes : Bytes
deriving Repr

/-- A module. -/
structure Module where
  imports : List Import
  funcs : List Func
  memories : List Limits
  globals : List Global
  exports : List Export
  start : Option Nat
  segments : List Segment
deriving Repr

namespace Module

/-- The module with nothing in it. -/
def empty : Module := ⟨[], [], [], [], [], none, []⟩

instance : Inhabited Module := ⟨empty⟩

/-- The types of the imported functions. -/
def importedFuncs (m : Module) : List FuncType :=
  m.imports.filterMap fun
    | ⟨_, _, .func t⟩ => some t
    | _ => none

/-- The types of the imported globals. -/
def importedGlobals (m : Module) : List GlobalType :=
  m.imports.filterMap fun
    | ⟨_, _, .global t⟩ => some t
    | _ => none

/-- The limits of all memories. -/
def allMemories (m : Module) : List Limits :=
  (m.imports.filterMap fun
    | ⟨_, _, .memory l⟩ => some l
    | _ => none) ++ m.memories

/-- The types of all functions. -/
def funcTypes (m : Module) : List FuncType := m.importedFuncs ++ m.funcs.map (·.type)

/-- The types of all globals. -/
def globalTypes (m : Module) : List GlobalType := m.importedGlobals ++ m.globals.map (·.type)

/-- The module has an export with a name, of whatever kind. -/
def hasExport (m : Module) (name : String) : Bool := m.exports.any (·.name = name)

/-- The index of the function that is exported under a name. -/
def exportedFunc? (m : Module) (name : String) : Option Nat :=
  match m.exports.find? (·.name = name) with
  | some ⟨_, .func idx⟩ => some idx
  | _ => none

/-- A memory is exported under a name. -/
def exportsMemory (m : Module) (name : String) : Bool :=
  match m.exports.find? (·.name = name) with
  | some ⟨_, .memory _⟩ => true
  | _ => false

end Module

/-- Why bytes are not a module that can be run. -/
inductive ModuleFault where
  /-- The bytes or the text have the wrong form. -/
  | malformed (reason : String)
  /-- The form is right, but something does not fit together. -/
  | invalid (reason : String)
deriving DecidableEq, Repr

/-- The wording of a fault. -/
def ModuleFault.message : ModuleFault → String
  | malformed reason => s!"malformed module: {reason}"
  | invalid reason => s!"invalid module: {reason}"

end JigLedger.Wasm
