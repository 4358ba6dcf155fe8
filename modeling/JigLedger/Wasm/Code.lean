import JigLedger.Wasm.Module

/-!
# Code as a sequence

Both formats write the body of a function as a sequence in which blocks are opened and closed.
`Code.nest` puts together the trees that a sequence describes.
-/

namespace JigLedger.Wasm.Code

/-- One item of a sequence. -/
inductive Item where
  | plain (i : Instr)
  | block (type : FuncType)
  | loop (type : FuncType)
  | cond (type : FuncType)
  /-- Begins the second branch of a condition. -/
  | otherwise
  /-- Closes the innermost block, or the body. -/
  | finish
deriving Repr

/-- What has been opened. -/
inductive Opening where
  | block (type : FuncType)
  | loop (type : FuncType)
  | cond (type : FuncType)
  /-- A condition whose first branch is complete. -/
  | condElse (type : FuncType) (yes : List Instr)

/-- The instruction that is complete with the instructions inside. -/
def Opening.close (inside : List Instr) : Opening → Instr
  | block type => .block type inside
  | loop type => .loop type inside
  | cond type => .cond type inside []
  | condElse type yes => .cond type yes inside

/-- Puts trees together. `outer` are the open blocks, the innermost first, each with the
instructions before it; `before` are those before the next item. Both run backwards. -/
def nestFrom (outer : List (Opening × List Instr)) (before : List Instr) :
    List Item → Except ModuleFault (List Instr)
  | [] => .error (.malformed "unexpected end of code")
  | .plain i :: rest => nestFrom outer (i :: before) rest
  | .block type :: rest => nestFrom ((.block type, before) :: outer) [] rest
  | .loop type :: rest => nestFrom ((.loop type, before) :: outer) [] rest
  | .cond type :: rest => nestFrom ((.cond type, before) :: outer) [] rest
  | .otherwise :: rest =>
    match outer with
    | (.cond type, earlier) :: outer =>
      nestFrom ((.condElse type before.reverse, earlier) :: outer) [] rest
    | _ => .error (.malformed "else without if")
  | .finish :: rest =>
    match outer, rest with
    | (opening, earlier) :: outer, rest =>
      nestFrom outer (opening.close before.reverse :: earlier) rest
    | [], [] => .ok before.reverse
    | [], _ :: _ => .error (.malformed "code after the end")

/-- The instructions of a body whose end is marked. -/
def nest (items : List Item) : Except ModuleFault (List Instr) := nestFrom [] [] items

end JigLedger.Wasm.Code
