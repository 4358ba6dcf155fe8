import JigLedger.Proofs.Engine.Computation

/-!
# What the engine is built from

Whatever a transaction or a guest asks for comes down to a few operations on the session, done one
after the other. `BuiltWith` is the closure of these operations; it leaves open how the code of a
guest is run, and whether coins may be spent and locks replaced. A property of all that the engine
does is proved by an induction over it, with one case for each operation, and everything else about
the engine is that it is built in this way.
-/

namespace JigLedger

namespace Engine

open Wasm (Val Thread)

/-- A way to run the code of guests in each transaction. -/
abbrev Invoker := Context → (guest : Nat) → Errand → Thread → Engine (List Val)

/-- The host of a transaction that runs guests in a given way. -/
def Invoker.host (inv : Invoker) (c : Context) : Host := ⟨c, inv c⟩

/-- The same transaction with another registry and another store. -/
def Context.over (c : Context) (registry : Registry) (store : Store) : Context :=
  { c with env := { c.env with registry := registry, store := store } }

/-- The code of the package with an index may run for an errand. The package of the top frame is
given where it is known. -/
def Errand.Fits (home : Nat) (top : Option Nat) : Errand → Prop
  | .call | .arguments | .answer => top = some home
  | .object other | .origin other => other = home
  | .start => False

/-- A computation of the engine in each transaction, while the package of the top frame has the
given index, if there is one given. Only if it may are coins spent and locks replaced. -/
inductive BuiltWith (pays locks : Prop) (inv : Invoker) :
    Option Nat → {α : Type} → (Context → Engine α) → Prop where
  /-- Something that nobody notices, the same for every registry and store. -/
  | silent {top : Option Nat} {α : Type} {m : Context → Engine α} (silent : ∀ c, Silently (m c))
      (alike : ∀ c registry store, m (c.over registry store) = m c) : BuiltWith pays locks inv top m
  | bind {top : Option Nat} {α β : Type} {m : Context → Engine α} {f : α → Context → Engine β}
      (first : BuiltWith pays locks inv top m) (rest : ∀ a, BuiltWith pays locks inv top (f a)) :
      BuiltWith pays locks inv top fun c => m c >>= fun a => f a c
  /-- The index of the package of the top frame is looked up. -/
  | calling {top : Option Nat} {α : Type} {f : Nat → Context → Engine α}
      (rest : ∀ home, BuiltWith pays locks inv (some home) (f home)) :
      BuiltWith pays locks inv top fun c => callingHome >>= fun home => f home c
  /-- A failure goes on with another text. -/
  | rethrow {top : Option Nat} {α : Type} {m : Context → Engine α} (g : Failure → Failure)
      (body : BuiltWith pays locks inv top m) :
      BuiltWith pays locks inv top fun c => tryCatch (m c) fun e => throw (g e)
  | package {top : Option Nat} (error : ExecError) (id : PackageId) :
      BuiltWith pays locks inv top fun c => packageOr c error id
  | judge {top : Option Nat} (origin : Pointer) :
      BuiltWith pays locks inv top fun c => classOf c origin
  | deploy {top : Option Nat} (entries : List String) (sources : Sources) :
      BuiltWith pays locks inv top fun c => (inv.host c).deploy entries sources
  | invoke {top : Option Nat} (home : Nat) (errand : Errand) (thread : PackageInstance → Thread)
      (fits : errand.Fits home top) :
      BuiltWith pays locks inv top fun c => (inv.host c).invokeAt home errand thread
  | boot {top : Option Nat} (id : PackageId)
      (targets : ∀ p : Package,
        BuiltWith pays locks inv none fun c => p.abi.imports.mapM (importTarget c)) :
      BuiltWith pays locks inv top fun c => (inv.host c).instanceFor id
  | loadLatest {top : Option Nat} (origin : Pointer) (touched : Nat → Engine Nat)
      (silent : ∀ idx, Silently (touched idx))
      (targets : ∀ p : Package,
        BuiltWith pays locks inv none fun c => p.abi.imports.mapM (importTarget c))
      (build : ∀ home cls origin values,
        BuiltWith pays locks inv none fun c => (inv.host c).buildObject home cls origin values) :
      BuiltWith pays locks inv top fun c => (inv.host c).loadLatest origin touched
  | loadByLocation {top : Option Nat} (location : Pointer)
      (targets : ∀ p : Package,
        BuiltWith pays locks inv none fun c => p.abi.imports.mapM (importTarget c))
      (build : ∀ home cls origin values,
        BuiltWith pays locks inv none fun c => (inv.host c).buildObject home cls origin values) :
      BuiltWith pays locks inv top fun c => (inv.host c).loadByLocation location
  | construct {top : Option Nat} (home classIdx : Nat) (args : List Value)
      (call : ∀ cls,
        BuiltWith pays locks inv (some home) fun c => (inv.host c).callConstructor home cls args)
      (new : ∀ cls origin word,
        BuiltWith pays locks inv none fun c => (inv.host c).newJig home classIdx cls origin word) :
      BuiltWith pays locks inv top fun c => (inv.host c).construct home classIdx args
  | method {top : Option Nat} (idx : Nat) (method : Abi.Callable) (args : List Value)
      (body : ∀ home address, BuiltWith pays locks inv (some home) fun c =>
        (inv.host c).callWith home method [.i32 address] args) :
      BuiltWith pays locks inv top fun c => (inv.host c).callMethod idx method args
  | function {top : Option Nat} (home : Nat) (function : Abi.Callable) (args : List Value)
      (body :
        BuiltWith pays locks inv (some home) fun c => (inv.host c).callWith home function [] args) :
      BuiltWith pays locks inv top fun c => (inv.host c).callFunction home function args
  | changeLock {top : Option Nat} (idx : Nat) (lock : Lock) (may : locks) :
      BuiltWith pays locks inv top fun c => changeLock c idx lock
  | pay {top : Option Nat} (origin : Pointer) (idx : Nat) (may : pays) :
      BuiltWith pays locks inv top fun c => pay c origin idx

/-- A computation of the engine, which may spend coins and replace locks. -/
abbrev Built (inv : Invoker) (top : Option Nat) {α : Type} (m : Context → Engine α) : Prop :=
  BuiltWith True True inv top m

namespace BuiltWith

variable {pays locks : Prop} {inv : Invoker} {top : Option Nat} {α β : Type}

/-- A silent computation that does not look at the transaction. -/
theorem plain {m : Engine α} (h : Silently m) : BuiltWith pays locks inv top fun _ => m :=
  .silent (fun _ => h) fun _ _ _ => rfl

/-- A computation that only looks at the session. -/
theorem reads {m : Engine α} (h : ReadsOnly m) : BuiltWith pays locks inv top fun _ => m :=
  plain h.silently

theorem pure (a : α) : BuiltWith pays locks inv top fun _ => pure a := reads (.pure a)

theorem fail (e : ExecError) : BuiltWith pays locks inv top fun _ => (fail e : Engine α) :=
  reads (.fail e)

theorem failPlain (message : String) :
    BuiltWith pays locks inv top fun _ => (failPlain message : Engine α) :=
  reads (.failPlain message)

/-- A computation in two parts, the first of which only looks at the session. -/
theorem reading {m : Engine α} {f : α → Context → Engine β} (h : ReadsOnly m)
    (rest : ∀ a, BuiltWith pays locks inv top (f a)) :
    BuiltWith pays locks inv top fun c => m >>= fun a => f a c :=
  .bind (reads h) rest

theorem map {m : Context → Engine α} (h : BuiltWith pays locks inv top m) (f : α → β) :
    BuiltWith pays locks inv top fun c => f <$> m c := by
  simp only [map_eq_pure_bind]
  exact h.bind fun a => .pure (f a)

theorem mapM {f : α → Context → Engine β} (h : ∀ a, BuiltWith pays locks inv top (f a)) :
    ∀ items : List α, BuiltWith pays locks inv top fun c => items.mapM fun a => f a c
  | [] => by simpa using pure []
  | a :: rest => by
    simp only [List.mapM_cons]
    exact (h a).bind fun b => (mapM h rest).bind fun bs => .pure (b :: bs)

theorem forM {f : α → Context → Engine PUnit} (h : ∀ a, BuiltWith pays locks inv top (f a)) :
    ∀ items : List α, BuiltWith pays locks inv top fun c => items.forM fun a => f a c
  | [] => by simpa using pure PUnit.unit
  | a :: rest => by
    simp only [List.forM_eq_forM, List.forM_cons]
    exact (h a).bind fun _ => by simpa only [List.forM_eq_forM] using forM h rest

end BuiltWith

end Engine

end JigLedger
