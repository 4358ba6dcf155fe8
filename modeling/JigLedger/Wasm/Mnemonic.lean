import JigLedger.Wasm.Module

/-!
# Instruction tables

The opcode and the name of each instruction that is not a block and takes no index: those without
any constant part, and the accesses to memory.
-/

namespace JigLedger.Wasm.Mnemonic

/-- An instruction with its opcode and its name. -/
structure Entry (α : Type) where
  opcode : Nat
  name : String
  value : α

/-- Entries with consecutive opcodes. -/
def numbered {α : Type} (opcode : Nat) : List (String × α) → List (Entry α)
  | [] => []
  | (name, value) :: rest => ⟨opcode, name, value⟩ :: numbered (opcode + 1) rest

/-- Comparisons in the order of their opcodes. -/
def comparisons : List (String × Comparison) :=
  [("eq", .eq), ("ne", .ne), ("lt_s", .ltS), ("lt_u", .ltU), ("gt_s", .gtS), ("gt_u", .gtU),
    ("le_s", .leS), ("le_u", .leU), ("ge_s", .geS), ("ge_u", .geU)]

/-- Operations on one integer in the order of their opcodes. -/
def unaryOps : List (String × UnaryOp) := [("clz", .clz), ("ctz", .ctz), ("popcnt", .popcnt)]

/-- Operations on two integers in the order of their opcodes. -/
def binaryOps : List (String × BinaryOp) :=
  [("add", .add), ("sub", .sub), ("mul", .mul), ("div_s", .divS), ("div_u", .divU),
    ("rem_s", .remS), ("rem_u", .remU), ("and", .and), ("or", .or), ("xor", .xor), ("shl", .shl),
    ("shr_s", .shrS), ("shr_u", .shrU), ("rotl", .rotl), ("rotr", .rotr)]

/-- The tests and comparisons of one integer type. -/
def testsOf (t : NumType) : List (String × Instr) :=
  (t.name ++ ".eqz", .isZero t) ::
    comparisons.map fun (name, op) => (t.name ++ "." ++ name, .compare t op)

/-- The arithmetic of one integer type. -/
def arithmeticOf (t : NumType) : List (String × Instr) :=
  (unaryOps.map fun (name, op) => (t.name ++ "." ++ name, .unary t op)) ++
    binaryOps.map fun (name, op) => (t.name ++ "." ++ name, .binary t op)

/-- The instructions without a constant part. -/
def plain : List (Entry Instr) :=
  [⟨0x00, "unreachable", .unreachable⟩, ⟨0x01, "nop", .nop⟩, ⟨0x0F, "return", .exit⟩,
    ⟨0x1A, "drop", .drop⟩, ⟨0x1B, "select", .select⟩] ++
  numbered 0x45 (testsOf .i32 ++ testsOf .i64) ++
  numbered 0x67 (arithmeticOf .i32) ++
  numbered 0x79 (arithmeticOf .i64) ++
  [⟨0xA7, "i32.wrap_i64", .convert .wrap⟩, ⟨0xAC, "i64.extend_i32_s", .convert .extendS⟩,
    ⟨0xAD, "i64.extend_i32_u", .convert .extendU⟩] ++
  numbered 0xC0 [("i32.extend8_s", .unary .i32 (.extend 8)),
    ("i32.extend16_s", .unary .i32 (.extend 16)), ("i64.extend8_s", .unary .i64 (.extend 8)),
    ("i64.extend16_s", .unary .i64 (.extend 16)), ("i64.extend32_s", .unary .i64 (.extend 32))]

/-- The accesses that load a number. -/
def loads : List (Entry Access) :=
  numbered 0x28 [("i32.load", ⟨.i32, 4, false, 0⟩), ("i64.load", ⟨.i64, 8, false, 0⟩),
    ("f32.load", ⟨.f32, 4, false, 0⟩), ("f64.load", ⟨.f64, 8, false, 0⟩),
    ("i32.load8_s", ⟨.i32, 1, true, 0⟩), ("i32.load8_u", ⟨.i32, 1, false, 0⟩),
    ("i32.load16_s", ⟨.i32, 2, true, 0⟩), ("i32.load16_u", ⟨.i32, 2, false, 0⟩),
    ("i64.load8_s", ⟨.i64, 1, true, 0⟩), ("i64.load8_u", ⟨.i64, 1, false, 0⟩),
    ("i64.load16_s", ⟨.i64, 2, true, 0⟩), ("i64.load16_u", ⟨.i64, 2, false, 0⟩),
    ("i64.load32_s", ⟨.i64, 4, true, 0⟩), ("i64.load32_u", ⟨.i64, 4, false, 0⟩)]

/-- The accesses that store a number. -/
def stores : List (Entry Access) :=
  numbered 0x36 [("i32.store", ⟨.i32, 4, false, 0⟩), ("i64.store", ⟨.i64, 8, false, 0⟩),
    ("f32.store", ⟨.f32, 4, false, 0⟩), ("f64.store", ⟨.f64, 8, false, 0⟩),
    ("i32.store8", ⟨.i32, 1, false, 0⟩), ("i32.store16", ⟨.i32, 2, false, 0⟩),
    ("i64.store8", ⟨.i64, 1, false, 0⟩), ("i64.store16", ⟨.i64, 2, false, 0⟩),
    ("i64.store32", ⟨.i64, 4, false, 0⟩)]

/-- The entry with an opcode. -/
def ofOpcode? {α : Type} (table : List (Entry α)) (opcode : Nat) : Option α :=
  (table.find? (·.opcode = opcode)).map (·.value)

/-- The entry with a name. -/
def ofName? {α : Type} (table : List (Entry α)) (name : String) : Option α :=
  (table.find? (·.name = name)).map (·.value)

end JigLedger.Wasm.Mnemonic
