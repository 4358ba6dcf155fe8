import JigLedger.Ledger

/-!
# Ledgers that are changed in place

`Ledger.commit` gives a new ledger or an error. Here the same work is done on one ledger, table by
table: each package is looked up, each spend and each output is checked, then each spend is taken
out, each output is put in and each package is registered. What a step has written stays, also when
a later step fails. Transactions are run one after the other in the same way.
-/

namespace JigLedger.Ledger.InPlace

/-- Work on a ledger that is changed in place. What has been written stays when the work fails. -/
abbrev Work (α : Type) := ExceptT Failure (StateM Ledger) α

/-- Looks at the ledger and fails if something is wrong with it. -/
def look {α : Type} (f : Ledger → Except Failure α) : Work α := fun l => (f l, l)

/-- Changes the ledger. -/
def change (f : Ledger → Ledger) : Work Unit := fun l => (.ok (), f l)

/-- Work that is part of something else, whose failures say so. -/
def during {α : Type} (context : String) (work : Work α) : Work α := fun l =>
  let (result, after) := work l
  (within context result, after)

/-- A package must not be registered yet. -/
def checkPackage (p : Package) : Work Unit := look fun l =>
  if l.registry.contains p.id then .error (.plain (AlreadyRegistered.mk p.id).message) else .ok ()

/-- A spend has to be current. -/
def checkSpend (spend : Spend) : Work Unit := look fun l =>
  (l.store.checkSpend spend).mapError fun e => .plain e.message

/-- There has to be room for an output. -/
def checkOutput (spends : List Spend) (o : Output) : Work Unit := look fun l =>
  (l.store.checkOutput spends o).mapError fun e => .plain e.message

/-- Takes out an output that is spent. -/
def spend (outputs : List Output) (s : Spend) : Work Unit :=
  change fun l => { l with store := l.store.remove outputs s }

/-- Puts in an output. -/
def put (o : Output) : Work Unit := change fun l => { l with store := l.store.add o }

/-- Changes the store: all checks first, then spend by spend and output by output. -/
def apply (spends : List Spend) (outputs : List Output) : Work Unit := do
  spends.forM checkSpend
  outputs.forM (checkOutput spends)
  spends.forM (spend outputs)
  outputs.forM put

/-- Registers a package. -/
def register (p : Package) : Work Unit := do
  let registry ← look fun l => (l.registry.add p).mapError fun e => .plain e.message
  change fun l => { l with registry := registry }

/-- Commits the result of a transaction. -/
def commit (r : ExecutionResult) : Work Unit := do
  r.deploys.forM checkPackage
  apply r.spends r.outputs
  r.deploys.forM register

/-- Executes a transaction and commits its result. -/
def runTransaction (p : Policy) (tx : Transaction) : Work ExecutionResult := do
  let r ← look fun l => (l.execute p tx).1.mapError .ofError
  during "commit execution result" (commit r)
  return r

/-- Runs the transactions from number `idx` on. -/
def replayFrom (p : Policy) : (idx : Nat) → List Transaction → Work (List ExecutionResult)
  | _, [] => return []
  | idx, tx :: rest => do
    let r ← during s!"transaction {idx} failed" (runTransaction p tx)
    let results ← replayFrom p (idx + 1) rest
    return r :: results

/-- Runs transactions one after the other, up to the first that fails. -/
def replay (p : Policy) (txs : List Transaction) : Work (List ExecutionResult) :=
  replayFrom p 0 txs

end JigLedger.Ledger.InPlace
