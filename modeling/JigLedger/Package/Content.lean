import JigLedger.Digest.Sha256
import JigLedger.Identifier
import JigLedger.Sources

/-!
# Package ids

The id of a package is the digest of its sorted entries and its sources, so that neither the order
of the entries nor that of the sources matters.
-/

namespace JigLedger.Package

/-- The bytes whose digest is the id of a package. -/
def contentPayload (entries : List String) (sources : Sources) : Except Wire.Fault Bytes :=
  let sorted := entries.mergeSort fun a b => decide (a ≤ b)
  ((Wire.Codec.list Wire.Codec.text).pair Wire.Codec.sources).write (sorted, sources)

/-- The id of a package with the given entries and sources. -/
def contentId (entries : List String) (sources : Sources) : Except Wire.Fault PackageId := do
  return ⟨Sha256.digest (← contentPayload entries sources)⟩

/-- The message of a fault in writing entries and sources. -/
def contentMessage (fault : Wire.Fault) : String := s!"encode package sources: {fault.message}"

end JigLedger.Package
