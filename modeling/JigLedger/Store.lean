import JigLedger.Output
import Std.Data.ExtTreeMap

/-!
# The store of outputs

The store holds the outputs that can be spent, by their location and by the origin of their jig.
A jig that is destroyed leaves its last output behind with a frozen lock, so that whoever asks for
it learns that it is frozen. A change spends outputs and adds outputs; it is refused as a whole, or
applied as a whole.
-/

namespace JigLedger

/-- An output that a transaction consumes: its jig, and where the transaction found it. -/
structure Spend where
  origin : Pointer
  location : Pointer
deriving DecidableEq, Repr

/-- Why a change of the store was refused. -/
inductive StoreError where
  | jigExists (origin : Pointer)
  | locationUsed (location : Pointer)
  | alreadySpent (location origin current : Pointer)
  | unknownJig (origin : Pointer)
  | unspentOutput (origin : Pointer)
deriving DecidableEq, Repr

/-- The wording of a refusal. -/
def StoreError.message : StoreError → String
  | jigExists origin => s!"jig {origin.toText} already exists"
  | locationUsed location => s!"location {location.toText} already used"
  | alreadySpent location origin current =>
    s!"output {location.toText} of jig {origin.toText} is already spent, " ++
      s!"current location is {current.toText}"
  | unknownJig origin => s!"cannot spend unknown or destroyed jig {origin.toText}"
  | unspentOutput origin => s!"output for {origin.toText} does not spend its previous output"

/-- The outputs known. -/
structure Store where
  /-- Outputs that can be spent, by location. -/
  live : Std.ExtTreeMap Pointer Output compare
  /-- The location of each jig that can be spent. -/
  current : Std.ExtTreeMap Pointer Pointer compare
  /-- The last outputs of destroyed jigs, frozen. -/
  destroyed : Std.ExtTreeMap Pointer Output compare

namespace Store

/-- The store without outputs. -/
def empty : Store := ⟨∅, ∅, ∅⟩

instance : Inhabited Store := ⟨empty⟩

/-- The number of outputs that can be spent. -/
def size (s : Store) : Nat := s.live.size

/-- The output at a location. -/
def byLocation (s : Store) (location : Pointer) : Option Output := s.live[location]?

/-- The latest output of a jig. -/
def byOrigin (s : Store) (origin : Pointer) : Option Output :=
  match s.current[origin]? with
  | some location => s.live[location]?
  | none => s.destroyed[origin]?

/-- The jig has an output, or had one before it was destroyed. -/
def knows (s : Store) (origin : Pointer) : Bool :=
  s.current.contains origin || s.destroyed.contains origin

/-- The store with one more output that can be spent. -/
def add (s : Store) (o : Output) : Store :=
  { s with live := s.live.insert o.location o, current := s.current.insert o.origin o.location }

/-- Adds the output of a jig that is not known yet. -/
def insert (s : Store) (o : Output) : Except StoreError Store :=
  if s.knows o.origin then .error (.jigExists o.origin)
  else if s.live.contains o.location then .error (.locationUsed o.location)
  else .ok (s.add o)

/-- Fails unless a spend names the current location of its jig. -/
def checkSpend (s : Store) (spend : Spend) : Except StoreError Unit :=
  match s.current[spend.origin]? with
  | some location =>
    if location = spend.location then .ok ()
    else .error (.alreadySpent spend.location spend.origin location)
  | none => .error (.unknownJig spend.origin)

/-- Fails unless the location of an output is free and its jig is new or spent. -/
def checkOutput (s : Store) (spends : List Spend) (o : Output) : Except StoreError Unit :=
  if s.live.contains o.location then .error (.locationUsed o.location)
  else if s.knows o.origin && !spends.any (·.origin = o.origin) then
    .error (.unspentOutput o.origin)
  else .ok ()

/-- The last output of a destroyed jig. -/
def tombstone (o : Output) (origin : Pointer) : Output :=
  { o with lock := ⟨origin, LockKind.frozen.code, []⟩ }

/-- Takes out the output that is spent. Its jig is destroyed unless it has a new output. -/
def remove (outputs : List Output) (s : Store) (spend : Spend) : Store :=
  let current := s.current.erase spend.origin
  match s.live[spend.location]? with
  | none => { s with current := current }
  | some last =>
    let live := s.live.erase spend.location
    if outputs.any (·.origin = spend.origin) then { s with live := live, current := current }
    else
      ⟨live, current, s.destroyed.insert spend.origin (tombstone last spend.origin)⟩

/-- Spends outputs and adds outputs, after all checks. -/
def apply (s : Store) (spends : List Spend) (outputs : List Output) : Except StoreError Store := do
  spends.forM s.checkSpend
  outputs.forM (s.checkOutput spends)
  return outputs.foldl add (spends.foldl (remove outputs) s)

/-- The encoding of the whole store: the live outputs in the order of their locations, the map from
origins to locations, and the last outputs of destroyed jigs in the order of their origins. -/
def snapshot (s : Store) : Except Wire.Fault Bytes := do
  let outputs := Wire.Codec.list Wire.Codec.output
  return (← outputs.write s.live.values) ++
    (← (Wire.Codec.map Wire.Codec.pointer Wire.Codec.pointer).write s.current.toList) ++
    (← outputs.write s.destroyed.values)

/-- The message of a fault in writing a snapshot. -/
def snapshotMessage (fault : Wire.Fault) : String := s!"encode state snapshot: {fault.message}"

end Store

end JigLedger
