import JigLedger.Wasm.Text.Body

/-!
# Modules in the text format

A module is a list of fields. Types are looked up first, then everything that gets a number is
numbered, and code is read last, when all numbers are known.
-/

namespace JigLedger.Wasm.Text

/-- A string that is a name. -/
def nameOf (bytes : Bytes) : Read String :=
  match Utf8.decode? bytes with
  | some s => .ok s
  | none => fail "malformed utf-8 encoding"

/-- A field of a module, with code left as it is written. -/
inductive ModuleField where
  /-- Something imported, with the names under which it is exported again. -/
  | imported (id : Option String) (exports : List String) (entry : Import)
  | func (id : Option String) (exports : List String) (type : FuncType) (params : Names)
      (rest : List Tree)
  | memory (id : Option String) (exports : List String) (limits : Limits) (bytes : Option Bytes)
  | global (id : Option String) (exports : List String) (type : GlobalType) (code : List Tree)
  | exported (name kind target : String)
  | start (target : String)
  | segment (address : Option (List Tree)) (bytes : Bytes)

/-- The types that are given a name or a number. -/
def typeFields : List Tree → Read (List (Option String × FuncType))
  | [] => .ok []
  | .list (.word "type" :: rest) :: fields => do
    match identifier? rest with
    | (id, [.list (.word "func" :: sig)]) =>
      match ← takeType [] sig with
      | (t, _, []) =>
        let more ← typeFields fields
        return (id, t) :: more
      | _ => fail "unexpected tree in a type"
    | _ => fail "expected a function type"
  | _ :: fields => typeFields fields

/-- Takes the exports off the front of a field. -/
def takeExports : List Tree → Read (List String × List Tree)
  | .list [.word "export", .text bytes] :: rest => do
    let name ← nameOf bytes
    let (more, rest) ← takeExports rest
    return (name :: more, rest)
  | ts => .ok ([], ts)

/-- Takes the limits of a memory off the front. -/
def takeLimits : List Tree → Read (Limits × List Tree)
  | .word least :: rest => do
    let some least := Numeral.u32? least | fail "expected a number of pages"
    match rest with
    | .word greatest :: rest =>
      match Numeral.u32? greatest with
      | some n => return (⟨least, some n⟩, rest)
      | none => fail "expected a number of pages"
    | rest => return (⟨least, none⟩, rest)
  | _ => fail "expected a number of pages"

/-- The type of a global. -/
def globalType : Tree → Read GlobalType
  | .list [.word "mut", t] => do return ⟨← numType t, true⟩
  | t => do return ⟨← numType t, false⟩

/-- The bytes of strings, one after the other. -/
def stringBytes : List Tree → Read Bytes
  | [] => .ok []
  | .text bs :: rest => do return bs ++ (← stringBytes rest)
  | _ => fail "expected a string"

/-- What an import of a kind asks for. -/
def importType (types : List (Option String × FuncType)) (kind : String) (ts : List Tree) :
    Read ImportType := do
  match kind with
  | "func" =>
    match ← takeType types ts with
    | (t, _, []) => return .func t
    | _ => fail "unexpected tree in an import"
  | "memory" =>
    match ← takeLimits ts with
    | (limits, []) => return .memory limits
    | _ => fail "unexpected tree in an import"
  | "global" =>
    match ts with
    | [t] => return .global (← globalType t)
    | _ => fail "expected the type of a global"
  | _ => fail "unknown import kind"

/-- A field that defines something of a kind, or imports it in place. -/
def definition (types : List (Option String × FuncType)) (kind : String) (ts : List Tree) :
    Read ModuleField := do
  let (id, ts) := identifier? ts
  let (exports, ts) ← takeExports ts
  match ts with
  | .list [.word "import", .text module, .text name] :: ts =>
    return .imported id exports ⟨← nameOf module, ← nameOf name, ← importType types kind ts⟩
  | ts =>
    match kind, ts with
    | "memory", [.list (.word "data" :: strings)] =>
      let bytes ← stringBytes strings
      let pages := (bytes.length + pageSize - 1) / pageSize
      return .memory id exports ⟨pages, some pages⟩ (some bytes)
    | "memory", ts =>
      match ← takeLimits ts with
      | (limits, []) => return .memory id exports limits none
      | _ => fail "unexpected tree in a memory"
    | "global", t :: code => return .global id exports (← globalType t) code
    | "func", ts =>
      let (t, params, rest) ← takeType types ts
      return .func id exports t params rest
    | _, _ => fail "unexpected field"

/-- The address of a segment, written as code between other parts. -/
def segment (ts : List Tree) : Read ModuleField := do
  let (_, ts) := identifier? ts
  let ts := match ts with
    | .list [.word "memory", _] :: rest => rest
    | ts => ts
  match ts with
  | .list (.word "offset" :: code) :: strings =>
    return .segment (some code) (← stringBytes strings)
  | .list code :: strings => return .segment (some [.list code]) (← stringBytes strings)
  | strings => return .segment none (← stringBytes strings)

/-- The field that a list describes; types are left out. -/
def field (types : List (Option String × FuncType)) : Tree → Read (Option ModuleField)
  | .list (.word "type" :: _) => .ok none
  | .list [.word "import", .text module, .text name, .list (.word kind :: ts)] => do
    let (id, ts) := identifier? ts
    return some (.imported id [] ⟨← nameOf module, ← nameOf name, ← importType types kind ts⟩)
  | .list [.word "export", .text name, .list [.word kind, .word target]] => do
    return some (.exported (← nameOf name) kind target)
  | .list [.word "start", .word target] => .ok (some (.start target))
  | .list (.word "data" :: ts) => do return some (← segment ts)
  | .list (.word kind :: ts) => do return some (← definition types kind ts)
  | _ => fail "expected a field"

/-- Everything that gets a number, and the exports that stand beside definitions. -/
structure Numbering where
  funcs : Names
  globals : Names
  memories : Names
  exports : List Export

namespace Numbering

/-- The numbering before the first field. -/
def empty : Numbering := ⟨[], [], [], []⟩

/-- The numbering with exports of one thing. -/
def addExports (n : Numbering) (names : List String) (target : ExportTarget) : Numbering :=
  { n with exports := n.exports ++ names.map (⟨·, target⟩) }

/-- The numbering with one more function. -/
def addFunc (n : Numbering) (id : Option String) (exports : List String) : Numbering :=
  { n with funcs := n.funcs ++ [id] }.addExports exports (.func n.funcs.length)

/-- The numbering with one more global. -/
def addGlobal (n : Numbering) (id : Option String) (exports : List String) : Numbering :=
  { n with globals := n.globals ++ [id] }.addExports exports (.global n.globals.length)

/-- The numbering with one more memory. -/
def addMemory (n : Numbering) (id : Option String) (exports : List String) : Numbering :=
  { n with memories := n.memories ++ [id] }.addExports exports (.memory n.memories.length)

/-- The numbering with the thing that a field is about. -/
def add (n : Numbering) : ModuleField → Numbering
  | .imported id exports ⟨_, _, .func _⟩ => n.addFunc id exports
  | .imported id exports ⟨_, _, .global _⟩ => n.addGlobal id exports
  | .imported id exports ⟨_, _, .memory _⟩ => n.addMemory id exports
  | .func id exports _ _ _ => n.addFunc id exports
  | .global id exports _ _ => n.addGlobal id exports
  | .memory id exports _ _ => n.addMemory id exports
  | _ => n

end Numbering

/-- No identifier occurs twice. -/
def distinct (names : Names) : Bool := decide (names.filter Option.isSome).Nodup

/-- Imports stand before all definitions. -/
def importsFirst : (defined : Bool) → List ModuleField → Bool
  | _, [] => true
  | defined, .imported .. :: rest => !defined && importsFirst defined rest
  | _, .func .. :: rest | _, .global .. :: rest | _, .memory .. :: rest => importsFirst true rest
  | defined, _ :: rest => importsFirst defined rest

/-- The module with what one field adds, once everything has its number. -/
def addField (c : Context) (room : Nat) (m : Module) : ModuleField → Read Module
  | .imported _ _ i => .ok { m with imports := m.imports ++ [i] }
  | .func _ _ type params rest => do
    let (locals, code) ← takeTyped "local" rest
    let names := params ++ locals.map (·.1)
    if distinct names then
      let code ← body c names room code
      return { m with funcs := m.funcs ++ [⟨type, locals.map (·.2), code⟩] }
    else fail "duplicate local identifier"
  | .memory _ _ limits bytes => do
    let segments := match bytes with
      | some bs => [⟨some [.const (.i32 0)], bs⟩]
      | none => []
    return { m with memories := m.memories ++ [limits], segments := m.segments ++ segments }
  | .global _ _ type code => do
    let code ← body c [] room code
    return { m with globals := m.globals ++ [⟨type, code⟩] }
  | .exported name kind target => do
    let target ← match kind with
      | "func" => do pure (ExportTarget.func (← index c.funcs target))
      | "global" => do pure (ExportTarget.global (← index c.globals target))
      | "memory" => do pure (ExportTarget.memory (← index c.memories target))
      | _ => fail "unknown export kind"
    return { m with exports := m.exports ++ [⟨name, target⟩] }
  | .start target => do
    if m.start.isSome then fail "multiple start sections"
    else return { m with start := some (← index c.funcs target) }
  | .segment address bytes => do
    let address ← address.mapM (body c [] room)
    return { m with segments := m.segments ++ [⟨address, bytes⟩] }

/-- The module that fields describe. -/
def moduleOfFields (room : Nat) (ts : List Tree) : Read Module := do
  let types ← typeFields ts
  let fields := (← ts.mapM (field types)).filterMap id
  let numbering := fields.foldl Numbering.add .empty
  if !importsFirst false fields then fail "import after definition"
  else if !(distinct (types.map (·.1)) && distinct numbering.funcs && distinct numbering.globals &&
      distinct numbering.memories) then fail "duplicate identifier"
  else
    let context : Context := ⟨types, numbering.funcs, numbering.globals, numbering.memories⟩
    let m ← fields.foldlM (addField context room) Module.empty
    return { m with exports := numbering.exports ++ m.exports }

/-- The module that a text describes: a list of fields, or the fields by themselves. -/
def parse (cs : List Char) : Read Module := do
  let (ts, count) ← trees cs
  let room := count + 2
  match ts with
  | [] => fail "expected at least one module field"
  | [.list (.word "module" :: fields)] => moduleOfFields room (identifier? fields).2
  | fields => moduleOfFields room fields

/-- The module in text form. -/
def decode (bs : Bytes) : Read Module :=
  match Utf8.decode? bs with
  | some s => parse s.toList
  | none => fail "malformed utf-8 encoding"

end JigLedger.Wasm.Text
