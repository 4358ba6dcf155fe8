import JigLedger.Engine.Request

/-!
# Running guests

A thread of a guest is run step by step. Each step costs one unit of the fuel of the session. When
the thread asks for something, the engine answers with a host that runs further threads in the same
way; they cost fuel too.
-/

namespace JigLedger.Engine

open Wasm (Val Thread)

/-- Takes one unit of fuel. -/
def burn : Engine Unit := do
  let s ← get
  if s.fuel = 0 then throw (.ofTrap .outOfFuel)
  else set { s with fuel := s.fuel - 1 }

/-- The error for code that is not well typed; modules are checked before they run. -/
def illTyped : ExecError := .broken "guest code is not well typed"

/-- Runs a thread of a guest for an errand, and notes when it begins and when it ends. -/
def onErrand (runThread : Nat → Thread → Engine (List Val)) (guest : Nat) (errand : Errand)
    (t : Thread) : Engine (List Val) := do
  note (.invoked guest errand)
  let results ← runThread guest t
  note .finished
  return results

/-- Runs a thread of a guest to its end; the results, the last one first. `room` bounds the number
of steps, and it is enough when it is not below the fuel of the session. -/
def run (c : Context) : (room : Nat) → (guest : Nat) → Thread → Engine (List Val)
  | 0, _, _ => throw (.ofTrap .outOfFuel)
  | room + 1, idx, t => do
    burn
    let guest ← guestAt idx
    match guest.machine.step t with
    | .running machine t => do
      setMachine idx machine
      run c room idx t
    | .finished results => return results
    | .trapped trap => throw (.ofTrap trap)
    | .stuck => fail illTyped
    | .waiting function args t =>
      match guest.links[function]? with
      | none => fail illTyped
      | some function => do
        let host : Host := ⟨c, onErrand (run c room)⟩
        let results ← host.request idx function args.reverse
        run c room idx (t.resume results)

/-- The host of a transaction. -/
def host (c : Context) : Host := ⟨c, onErrand (run c c.env.config.fuelLimit)⟩

end JigLedger.Engine
