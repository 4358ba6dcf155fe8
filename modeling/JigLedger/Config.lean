import JigLedger.Identifier
import JigLedger.Json.Parser
import JigLedger.Json.Record

/-!
# Configuration

The limits under which transactions run. All of them but `logGuestOutput` decide results, so
whoever has to agree on results needs the same values.
-/

namespace JigLedger

/-- The limits under which transactions run. -/
structure Config where
  /-- The fuel of one transaction. -/
  fuelLimit : Nat := 50000000
  /-- The greatest number of nested calls. -/
  maxCallDepth : Nat := 64
  /-- The least amount of a coin that pays for a transaction. -/
  minFundAmount : UInt64 := 100
  /-- The name of the class of coins. -/
  coinClassName : String := "Coin"
  /-- The package of the class of coins; without it any class of that name will do for paying, but
  no coin can be minted. -/
  coinPackage : Option PackageId := none
  /-- The greatest number of bytes in one guest memory. -/
  maxMemoryBytes : Nat := 32 * 1024 * 1024
  /-- What guests print is kept. -/
  logGuestOutput : Bool := true
deriving DecidableEq, Repr

namespace Config

/-- The names of the fields in JSON. -/
def fieldNames : List String :=
  ["fuel_limit", "max_call_depth", "min_fund_amount", "coin_class_name", "coin_package",
    "max_memory_bytes", "log_guest_output"]

/-- A package id written as the array of its bytes. -/
def packageId? (j : Json) : Option PackageId := do
  let bytes ← Json.items? (Json.natBelow? 256) j
  let block ← Block.ofBytes? 32 (bytes.map UInt8.ofNat)
  return ⟨block⟩

/-- The configuration that a JSON record gives; missing fields have their defaults. -/
def ofJson? (j : Json) : Option Config := do
  let base : Config := {}
  let word := Json.natBelow? UInt64.size
  match ← Json.fields? fieldNames j with
  | [fuel, depth, amount, className, package, memory, log] => do
    return {
      fuelLimit := ← Json.orDefault base.fuelLimit word fuel
      maxCallDepth := ← Json.orDefault base.maxCallDepth word depth
      minFundAmount :=
        UInt64.ofNat (← Json.orDefault base.minFundAmount.toNat word amount)
      coinClassName := ← Json.orDefault base.coinClassName Json.text? className
      coinPackage := ← Json.orDefault base.coinPackage (Json.nullable? packageId?) package
      maxMemoryBytes := ← Json.orDefault base.maxMemoryBytes word memory
      logGuestOutput := ← Json.orDefault base.logGuestOutput Json.bool? log }
  | _ => none

/-- The message for a text that gives no configuration. -/
def parseMessage : String := "parse exec config"

/-- The configuration that a JSON text gives. -/
def parse? (s : String) : Option Config := Json.parse s >>= ofJson?

end Config

end JigLedger
