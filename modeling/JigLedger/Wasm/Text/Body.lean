import JigLedger.Wasm.Code
import JigLedger.Wasm.Mnemonic
import JigLedger.Wasm.Text.Fraction

/-!
# Instructions in the text format

Instructions are written one after the other, or folded: a list that holds an instruction and,
after its constant part, the instructions that compute its operands. Functions, globals, locals and
blocks are named by a number or by an identifier.
-/

namespace JigLedger.Wasm.Text

/-- The result of reading a part of a text. -/
abbrev Read := Except ModuleFault

/-- Gives up. -/
def fail {α : Type} (reason : String) : Read α := .error (.malformed reason)

/-- The identifiers of the things of one kind, in the order of their numbers. -/
abbrev Names := List (Option String)

/-- What the code of a module can refer to. -/
structure Context where
  types : List (Option String × FuncType)
  funcs : Names
  globals : Names
  memories : Names

/-- A word is an identifier. -/
def isIdentifier (w : String) : Bool := w.startsWith "$" && w.length > 1

/-- Takes an identifier off the front. -/
def identifier? : List Tree → Option String × List Tree
  | .word w :: rest => if isIdentifier w then (some w, rest) else (none, .word w :: rest)
  | ts => (none, ts)

/-- The number that a word refers to. -/
def index (names : Names) (w : String) : Read Nat :=
  if isIdentifier w then
    match names.findIdx? (· = some w) with
    | some idx => .ok idx
    | none => fail s!"unknown identifier {w}"
  else
    match Numeral.u32? w with
    | some n => .ok n
    | none => fail s!"expected an index, got {w}"

/-- Takes a reference off the front. -/
def takeIndex (names : Names) : List Tree → Read (Nat × List Tree)
  | .word w :: rest => do return (← index names w, rest)
  | _ => fail "expected an index"

/-- The type of a number. -/
def numType : Tree → Read NumType
  | .word "i32" => .ok .i32
  | .word "i64" => .ok .i64
  | .word "f32" => .ok .f32
  | .word "f64" => .ok .f64
  | _ => fail "unknown value type"

/-- The types in a list of parameters or locals, with their identifiers. One with an identifier
stands alone. -/
def namedTypes : List Tree → Read (List (Option String × NumType))
  | [.word w, t] =>
    if isIdentifier w then do return [(some w, ← numType t)]
    else [.word w, t].mapM fun t => do return (none, ← numType t)
  | ts => ts.mapM fun t => do return (none, ← numType t)

/-- Takes the lists that begin with a keyword off the front, and joins what they hold. -/
def takeTyped (keyword : String) : List Tree → Read (List (Option String × NumType) × List Tree)
  | .list (.word w :: items) :: rest =>
    if w = keyword then do
      let here ← namedTypes items
      let (more, rest) ← takeTyped keyword rest
      return (here ++ more, rest)
    else .ok ([], .list (.word w :: items) :: rest)
  | ts => .ok ([], ts)

/-- Takes the type of a function off the front: a reference to a type, or parameters and results,
or both if they agree. The parameters come with their identifiers. -/
def takeType (types : List (Option String × FuncType)) (ts : List Tree) :
    Read (FuncType × Names × List Tree) := do
  let (used, ts) ← match ts with
    | .list [.word "type", .word w] :: rest => do
      let idx ← index (types.map (·.1)) w
      match types[idx]? with
      | some (_, t) => .ok (some t, rest)
      | none => .error (.invalid "unknown type")
    | ts => .ok (none, ts)
  let (params, ts) ← takeTyped "param" ts
  let (results, ts) ← takeTyped "result" ts
  if results.any (·.1.isSome) then fail "a result has no identifier"
  else
    let written : FuncType := ⟨params.map (·.2), results.map (·.2)⟩
    match used with
    | none => return (written, params.map (·.1), ts)
    | some t =>
      if params.isEmpty && results.isEmpty then return (t, t.params.map fun _ => none, ts)
      else if t = written then return (t, params.map (·.1), ts)
      else fail "inline function type"

/-- Takes the type of a block off the front. -/
def takeBlockType (c : Context) (ts : List Tree) : Read (FuncType × List Tree) := do
  let (t, names, rest) ← takeType c.types ts
  if names.any Option.isSome then fail "a parameter of a block has no identifier"
  else return (t, rest)

/-- The number after a key, in a word such as `offset=4`. -/
def keyed? (key w : String) : Option (Option Nat) :=
  if w.startsWith key then some (Numeral.u32? (String.ofList (w.toList.drop key.length))) else none

/-- Takes a number with a key off the front, if it is there. -/
def takeKeyed (key : String) : List Tree → Read (Option Nat × List Tree)
  | .word w :: rest =>
    match keyed? key w with
    | none => .ok (none, .word w :: rest)
    | some (some n) => .ok (some n, rest)
    | some none => fail s!"bad number in {w}"
  | ts => .ok (none, ts)

/-- Takes the constant part of an access to memory off the front. -/
def takeAccess (a : Access) (ts : List Tree) : Read (Access × List Tree) := do
  let (offset, ts) ← takeKeyed "offset=" ts
  let (align, ts) ← takeKeyed "align=" ts
  match align with
  | some n =>
    if !n.isPowerOfTwo then fail "alignment must be a power of two"
    else if n > a.width then .error (.invalid "alignment must not be larger than natural")
    else return ({ a with offset := offset.getD 0 }, ts)
  | none => return ({ a with offset := offset.getD 0 }, ts)

/-- The bits of the constant of a type that a word is. -/
def constantBits? : NumType → List Char → Option Nat
  | .i32, cs => Numeral.integer? 32 cs
  | .i64, cs => Numeral.integer? 64 cs
  | .f32, cs => Format.single.bits? cs
  | .f64, cs => Format.double.bits? cs

/-- Takes a constant off the front. -/
def takeConst (t : NumType) : List Tree → Read (Val × List Tree)
  | .word w :: rest =>
    match constantBits? t w.toList with
    | some bits => .ok (.ofBits t bits, rest)
    | none => fail "constant out of range"
  | _ => fail "expected a number"

/-- Takes all references at the front. -/
def takeIndices (names : Names) : List Tree → Read (List Nat × List Tree)
  | .word w :: rest =>
    match index names w with
    | .ok n => do
      let (more, rest) ← takeIndices names rest
      return (n :: more, rest)
    | .error fault =>
      if isIdentifier w then .error fault else .ok ([], .word w :: rest)
  | ts => .ok ([], ts)

/-- Takes the memory that an instruction names off the front; there is only one. -/
def takeMemory (c : Context) : List Tree → List Tree
  | .word w :: rest =>
    match index c.memories w with
    | .ok 0 => rest
    | _ => .word w :: rest
  | ts => ts

/-- Takes the results that a select may declare off the front. -/
def takeSelect (ts : List Tree) : Read (Instr × List Tree) := do
  let (_, rest) ← takeTyped "result" ts
  return (.select, rest)

/-- The instruction with a keyword, and what follows its constant part. Blocks are not among
them. -/
def instruction (c : Context) (locals labels : Names) (keyword : String) (ts : List Tree) :
    Read (Instr × List Tree) := do
  let indexed (names : Names) (make : Nat → Instr) : Read (Instr × List Tree) := do
    let (n, rest) ← takeIndex names ts
    return (make n, rest)
  let constant (t : NumType) : Read (Instr × List Tree) := do
    let (n, rest) ← takeConst t ts
    return (.const n, rest)
  match keyword with
  | "br" => indexed labels .br
  | "br_if" => indexed labels .brIf
  | "br_table" =>
    let (depths, rest) ← takeIndices labels ts
    match depths.getLast? with
    | some last => return (.brTable depths.dropLast last, rest)
    | none => fail "expected a label"
  | "call" => indexed c.funcs .call
  | "local.get" => indexed locals .localGet
  | "local.set" => indexed locals .localSet
  | "local.tee" => indexed locals .localTee
  | "global.get" => indexed c.globals .globalGet
  | "global.set" => indexed c.globals .globalSet
  | "memory.size" => return (.memorySize, takeMemory c ts)
  | "memory.grow" => return (.memoryGrow, takeMemory c ts)
  | "i32.const" => constant .i32
  | "i64.const" => constant .i64
  | "f32.const" => constant .f32
  | "f64.const" => constant .f64
  | "select" => takeSelect ts
  | _ =>
    match Mnemonic.ofName? Mnemonic.plain keyword with
    | some i => return (i, ts)
    | none =>
      match Mnemonic.ofName? Mnemonic.loads keyword with
      | some a =>
        let (a, rest) ← takeAccess a ts
        return (.load a, rest)
      | none =>
        match Mnemonic.ofName? Mnemonic.stores keyword with
        | some a =>
          let (a, rest) ← takeAccess a ts
          return (.store a, rest)
        | none => fail s!"unknown operator {keyword}"

/-- The item that opens a block with a keyword. -/
def opening? (keyword : String) : Option (FuncType → Code.Item) :=
  match keyword with
  | "block" => some .block
  | "loop" => some .loop
  | "if" => some .cond
  | _ => none

/-- Takes the identifier that may be repeated at the end of a block off the front. -/
def takeEnd (label : Option String) (ts : List Tree) : Read (List Tree) :=
  match identifier? ts with
  | (none, rest) => .ok rest
  | (some w, rest) => if label = some w then .ok rest else fail "mismatching label"

mutual

/-- The items of instructions that stand one after the other. `opened` are the identifiers of the
blocks that were opened among them, and `outer` those of the blocks around them, the innermost
first. `room` bounds the number of trees. -/
def sequence (c : Context) (locals outer : Names) :
    (room : Nat) → (opened : Names) → List Tree → Read (List Code.Item)
  | 0, _, _ => fail "too deep"
  | _ + 1, [], [] => .ok []
  | _ + 1, _ :: _, [] => fail "missing end"
  | _ + 1, _, .text _ :: _ => fail "unexpected string"
  | room + 1, opened, .list items :: rest => do
    let here ← folded c locals (opened ++ outer) room items
    let more ← sequence c locals outer room opened rest
    return here ++ more
  | room + 1, opened, .word w :: rest => do
    match opening? w with
    | some opens =>
      let (label, rest) := identifier? rest
      let (t, rest) ← takeBlockType c rest
      let more ← sequence c locals outer room (label :: opened) rest
      return opens t :: more
    | none =>
      match w, opened with
      | "else", label :: _ =>
        let rest ← takeEnd label rest
        let more ← sequence c locals outer room opened rest
        return .otherwise :: more
      | "end", label :: opened =>
        let rest ← takeEnd label rest
        let more ← sequence c locals outer room opened rest
        return .finish :: more
      | _, _ =>
        let (i, rest) ← instruction c locals (opened ++ outer) w rest
        let more ← sequence c locals outer room opened rest
        return .plain i :: more

/-- The items of a folded instruction. -/
def folded (c : Context) (locals labels : Names) :
    (room : Nat) → List Tree → Read (List Code.Item)
  | 0, _ => fail "too deep"
  | room + 1, .word w :: rest => do
    match opening? w with
    | some opens =>
      let (label, rest) := identifier? rest
      let (t, rest) ← takeBlockType c rest
      if w = "if" then branches c locals labels room label t rest
      else
        let inside ← sequence c locals (label :: labels) room [] rest
        return opens t :: inside ++ [.finish]
    | none =>
      let (i, rest) ← instruction c locals labels w rest
      let operands ← operandsOf c locals labels room rest
      return operands ++ [.plain i]
  | _ + 1, _ => fail "expected an instruction"

/-- The items of folded instructions; nothing else may stand among them. -/
def operandsOf (c : Context) (locals labels : Names) :
    (room : Nat) → List Tree → Read (List Code.Item)
  | 0, _ => fail "too deep"
  | _ + 1, [] => .ok []
  | room + 1, .list items :: rest => do
    let here ← folded c locals labels room items
    let more ← operandsOf c locals labels room rest
    return here ++ more
  | _ + 1, _ => fail "expected a folded instruction"

/-- The items of a folded condition: those of the test, then its branches. -/
def branches (c : Context) (locals labels : Names) :
    (room : Nat) → (label : Option String) → FuncType → List Tree → Read (List Code.Item)
  | 0, _, _, _ => fail "too deep"
  | room + 1, label, t, .list (.word "then" :: yes) :: rest => do
    let first ← sequence c locals (label :: labels) room [] yes
    match rest with
    | [] => return .cond t :: first ++ [.finish]
    | [.list (.word "else" :: no)] =>
      let second ← sequence c locals (label :: labels) room [] no
      return .cond t :: first ++ .otherwise :: second ++ [.finish]
    | _ => fail "unexpected tree after then"
  | room + 1, label, t, .list items :: rest => do
    let here ← folded c locals labels room items
    let more ← branches c locals labels room label t rest
    return here ++ more
  | _ + 1, _, _, _ => fail "expected then"

end

/-- The instructions of a body. -/
def body (c : Context) (locals : Names) (room : Nat) (ts : List Tree) : Read (List Instr) := do
  let items ← sequence c locals [] room [] ts
  Code.nest (items ++ [.finish])

end JigLedger.Wasm.Text
