import JigLedger.Engine.Jigs

/-!
# Calls

Constructors, methods and functions run in a frame of their own. Whoever is on top of the stack of
frames is the caller that locks see; a function runs on behalf of whoever called it.
-/

namespace JigLedger.Engine

open Wasm (Val)

/-- Puts the frame of a call on the stack. -/
def pushFrame (c : Context) (entry : Entry) (frame : Frame) (callee : Abi.Callable)
    (args : List Value) : Engine Unit := do
  let s ← get
  let limit := c.env.config.maxCallDepth
  if s.frames.length < limit then set (s.entered entry frame callee args)
  else fail (.failed s!"call depth limit of {limit} exceeded")

/-- Takes the top frame off the stack. -/
def popFrame : Engine Unit := do
  let s ← get
  match s.frames with
  | [] => fail (.broken "frame stack underflow")
  | _ :: _ => set s.left

/-- Runs a call in a frame of its own. -/
def inFrame {α : Type} (c : Context) (entry : Entry) (frame : Frame) (callee : Abi.Callable)
    (args : List Value) (body : Engine α) : Engine α := do
  pushFrame c entry frame callee args
  let result ← body
  popFrame
  return result

namespace Host

variable (h : Host)

/-- The parameters of a call for a row of arguments. -/
def lowerArgs (home : Nat) : List Field → List Value → Engine (List Val)
  | f :: fields, v :: values => do
    let word ← f.ty.lower (h.heap home .arguments) v
    let rest ← lowerArgs home fields values
    return paramOf f.ty word :: rest
  | _, _ => return []

/-- The value that the result of a call stands for. -/
def liftResult (home : Nat) (result : Option Ty) (word : Option UInt64) : Engine (Option Value) :=
  match result, word with
  | some t, some word => do return some (← look home fun m => t.lift m word)
  | _, _ => return none

/-- The origin of a jig that is about to be constructed: a jig that an instruction constructs has
the place of the instruction, and one that a jig constructs has a fresh pointer. -/
def newOrigin : Engine Pointer := do
  let s ← get
  if s.frames.isEmpty then return ⟨h.context.txHash, UInt32.ofNat s.current⟩
  else freshPointer h.context

/-- Runs the export of a constructor; the word of the address of the object. -/
def callConstructor (home : Nat) (cls : Abi.Class) (args : List Value) :
    Engine (Option UInt64) := do
  let params ← h.lowerArgs home cls.constructor.params args
  h.callExport home cls.constructor.exportName params true

/-- The jig whose object a constructor has made. It is unlocked. -/
def newJig (home classIdx : Nat) (cls : Abi.Class) (origin : Pointer) (word : Option UInt64) :
    Engine TouchedJig := do
  let address := (word.getD 0).toUInt32
  if address = 0 then fail (.failed s!"constructor of {cls.ref.toText} returned null")
  else
    look home (·.checkRange address cls.size.toNat)
    Ty.writeOrigin (h.heap home (.origin home)) address origin
    return ⟨origin, none, home, classIdx, address, .unlocked⟩

/-- Fails because the origin of a new jig is that of a touched one. -/
def assignedTwice (origin : Pointer) (_ : Nat) : Engine Nat :=
  fail (.broken s!"origin {origin.toText} assigned twice")

/-- Constructs a jig of a class; its index. -/
def construct (home classIdx : Nat) (args : List Value) : Engine Nat := do
  let inst ← instanceAt home
  let cls ← orPlain AbiError.message (inst.package.abi.classAt classIdx)
  let origin ← h.newOrigin
  touch origin (assignedTwice origin) do
    let word ← inFrame h.context .constructor ⟨.jig origin, home⟩ cls.constructor args
      (h.callConstructor home cls args)
    h.newJig home classIdx cls origin word

/-- Runs the export of a method or a function; `receiver` are the parameters before the
arguments. -/
def callWith (home : Nat) (callee : Abi.Callable) (receiver : List Val) (args : List Value) :
    Engine (Option Value) := do
  let params ← h.lowerArgs home callee.params args
  let word ← h.callExport home callee.exportName (receiver ++ params) callee.result.isSome
  liftResult home callee.result word

/-- Calls a method of a touched jig, if its lock permits that. -/
def callMethod (idx : Nat) (method : Abi.Callable) (args : List Value) :
    Engine (Option Value) := do
  let jig ← jigAt idx
  let auth ← authority h.context
  if jig.lock.canReceiveCalls auth then
    inFrame h.context (.method idx) ⟨.jig jig.origin, jig.home⟩ method args
      (h.callWith jig.home method [.i32 jig.address] args)
  else
    let error := ExecError.refused s!"{jig.lock.kindName} lock rejects call to {method.name}"
    fail ((error.withOrigin jig.origin).withCaller auth.caller)

/-- Calls a function on behalf of whoever is calling. -/
def callFunction (home : Nat) (function : Abi.Callable) (args : List Value) :
    Engine (Option Value) := do
  let caller := (← get).caller
  inFrame h.context .function ⟨caller, home⟩ function args (h.callWith home function [] args)

/-- The class of a touched jig. -/
def classOfJig (jig : TouchedJig) : Engine Abi.Class := do
  orPlain AbiError.message ((← instanceAt jig.home).package.abi.classAt jig.classIdx)

/-- The method with an index of a class. -/
def methodAt (cls : Abi.Class) (idx : Nat) : Engine Abi.Callable :=
  orMissing (.failed s!"{cls.ref.toText} has no method {idx}") (cls.method? idx)

end Host

end JigLedger.Engine
