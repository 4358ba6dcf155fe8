import JigLedger.Wasm.Binary
import JigLedger.Wasm.Text.Parser
import JigLedger.Wasm.Typing

/-!
# Loading modules

Bytes that begin with the magic number are a module in binary form; all others are read as text.
Only well typed modules are loaded.
-/

namespace JigLedger.Wasm.Module

/-- The module that bytes describe, whether it is well typed or not. -/
def read (bs : Bytes) : Except ModuleFault Module :=
  if Binary.magic.isPrefixOf bs then Binary.decode bs else Text.decode bs

/-- The well typed module that bytes describe. -/
def load (bs : Bytes) : Except ModuleFault Module := do
  let m ← read bs
  m.validate
  return m

end JigLedger.Wasm.Module
