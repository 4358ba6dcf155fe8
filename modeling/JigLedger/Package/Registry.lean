import JigLedger.Package.Basic
import Std.Data.ExtTreeMap

/-!
# The registry of packages

The registry holds the packages that have been deployed, by their ids. A package is never replaced.
-/

namespace JigLedger

/-- The packages that have been deployed. -/
structure Registry where
  packages : Std.ExtTreeMap PackageId Package compare

/-- A package is registered already. -/
structure AlreadyRegistered where
  id : PackageId
deriving DecidableEq, Repr

/-- The wording of a refusal. -/
def AlreadyRegistered.message (e : AlreadyRegistered) : String :=
  s!"package {e.id.toText} already registered"

namespace Registry

/-- The registry without packages. -/
def empty : Registry := ⟨∅⟩

instance : Inhabited Registry := ⟨empty⟩

/-- The number of packages. -/
def size (r : Registry) : Nat := r.packages.size

/-- The ids of all packages in order. -/
def ids (r : Registry) : List PackageId := r.packages.keys

/-- The package with an id. -/
def get? (r : Registry) (id : PackageId) : Option Package := r.packages[id]?

/-- A package is registered. -/
def contains (r : Registry) (id : PackageId) : Bool := r.packages.contains id

/-- The registry with one more package. -/
def add (r : Registry) (p : Package) : Except AlreadyRegistered Registry :=
  if r.contains p.id then .error ⟨p.id⟩
  else .ok ⟨r.packages.insert p.id p⟩

end Registry

end JigLedger
