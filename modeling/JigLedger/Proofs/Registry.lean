import JigLedger.Package.Registry
import JigLedger.Proofs.Abi

/-!
# Sound registries

A package that is built has the id of what it was built from, and all its classes belong to it. A
registry has such packages only, each under its own id, and never gives one up.
-/

namespace JigLedger

/-! ### Packages that were built -/

namespace Package

variable {p : Package}

/-- A package was built from sources and what a compiler made of them. -/
def IsBuilt (p : Package) : Prop :=
  ∃ entries sources artifacts, build entries sources artifacts = .ok p

/-- A package was built from sources and what this compiler made of them. -/
def IsMadeBy (compiler : Compiler) (p : Package) : Prop :=
  ∃ entries sources artifacts, compiler entries sources = .ok artifacts ∧
    build entries sources artifacts = .ok p

theorem IsMadeBy.isBuilt {compiler : Compiler} (h : p.IsMadeBy compiler) : p.IsBuilt := by
  obtain ⟨entries, sources, artifacts, -, built⟩ := h
  exact ⟨entries, sources, artifacts, built⟩

/-- Building a package takes an id, an ABI that is resolved for this id, and a module. -/
theorem of_build {entries : List String} {sources : Sources} {artifacts : Artifacts}
    (h : build entries sources artifacts = .ok p) :
    contentId entries sources = .ok p.id ∧ Abi.resolve p.id artifacts.document = .ok p.abi ∧
      Wasm.Module.load artifacts.wasm = .ok p.module := by
  simp only [build, bind_eq_ok, mapError_eq_ok] at h
  obtain ⟨id, content, a, resolved, module, loaded, checked⟩ := h
  split at checked
  case h_1 => cases checked
  case h_2 =>
    cases checked
    exact ⟨content, resolved, loaded⟩

/-- A package whose module has the exports that its ABI requires is built. -/
theorem build_eq_ok {entries : List String} {sources : Sources} {document : Abi.Document}
    {wasm : Bytes} {id : PackageId} {abi : Abi} {module : Wasm.Module}
    (content : contentId entries sources = .ok id) (resolved : Abi.resolve id document = .ok abi)
    (loaded : Wasm.Module.load wasm = .ok module)
    (offered : (requiredExports abi).find? (fun name => !module.hasExport name) = none) :
    build entries sources ⟨document, wasm⟩ = .ok ⟨id, abi, module, entries, sources, wasm⟩ := by
  refine bind_eq_ok.2 ⟨id, mapError_eq_ok.2 content, ?_⟩
  refine bind_eq_ok.2 ⟨abi, mapError_eq_ok.2 resolved, ?_⟩
  refine bind_eq_ok.2 ⟨module, mapError_eq_ok.2 loaded, ?_⟩
  rw [offered]
  rfl

/-- All classes of a package that was built belong to it. -/
theorem IsBuilt.ref_package (h : p.IsBuilt) {idx : Nat} {cls : Abi.Class}
    (hc : p.abi.classAt idx = .ok cls) : cls.ref.package = p.id := by
  obtain ⟨entries, sources, artifacts, built⟩ := h
  exact Abi.ref_of_resolve (of_build built).2.1 hc

/-- The module of a package that was built has been checked. -/
theorem IsBuilt.validate (h : p.IsBuilt) : p.module.validate = .ok () := by
  obtain ⟨entries, sources, artifacts, built⟩ := h
  obtain ⟨module, -, checked⟩ := bind_eq_ok.1 (of_build built).2.2
  obtain ⟨_, valid, same⟩ := bind_eq_ok.1 checked
  cases same
  exact valid

end Package

/-! ### Registries -/

namespace Registry

variable {r r' r'' : Registry} {p : Package} {packages : List Package}

/-- A registry has packages with a property, each under its own id. -/
def Holds (q : Package → Prop) (r : Registry) : Prop := ∀ id p, r.get? id = some p → p.id = id ∧ q p

/-- A registry has packages that were built, each under its own id. -/
def Sound (r : Registry) : Prop := ∀ id p, r.get? id = some p → p.id = id ∧ p.IsBuilt

/-- Another registry has all packages of a registry. -/
def Extends (r r' : Registry) : Prop := ∀ id p, r.get? id = some p → r'.get? id = some p

theorem holds_empty (q : Package → Prop) : Holds q .empty :=
  fun id p h => by simp [get?, empty] at h

theorem sound_empty : Sound .empty := holds_empty _

theorem Extends.refl (r : Registry) : r.Extends r := fun _ _ h => h

theorem Extends.trans (h : r.Extends r') (h' : r'.Extends r'') : r.Extends r'' :=
  fun id p found => h' id p (h id p found)

theorem contains_eq (r : Registry) (id : PackageId) : r.contains id = (r.get? id).isSome :=
  Std.ExtTreeMap.contains_eq_isSome_getElem?

/-- A package that was added had not been registered. -/
theorem add_eq_ok : r.add p = .ok r' ↔
    r.get? p.id = none ∧ r' = ⟨r.packages.insert p.id p⟩ := by
  rw [add, contains_eq]
  rcases r.get? p.id with _ | known <;> simp [eq_comm]

theorem get?_add (done : r.add p = .ok r') (id : PackageId) :
    r'.get? id = if p.id = id then some p else r.get? id := by
  obtain ⟨-, rfl⟩ := add_eq_ok.1 done
  simp [get?, Std.ExtTreeMap.getElem?_insert]

/-- No package is given up for one that is added. -/
theorem extends_add (done : r.add p = .ok r') : r.Extends r' := by
  intro id q found
  rw [get?_add done]
  split
  case isTrue same =>
    rw [← same, (add_eq_ok.1 done).1] at found
    cases found
  case isFalse => exact found

theorem Holds.add {q : Package → Prop} (h : r.Holds q) (new : q p) (done : r.add p = .ok r') :
    r'.Holds q := by
  intro id other found
  rw [get?_add done] at found
  split at found
  case isTrue same =>
    cases found
    exact ⟨same, new⟩
  case isFalse => exact h id other found

theorem Sound.add (h : r.Sound) (built : p.IsBuilt) (done : r.add p = .ok r') : r'.Sound :=
  Holds.add h built done

/-- What holds of adding one package holds of adding several. -/
theorem extends_foldlM_add (done : packages.foldlM Registry.add r = .ok r') : r.Extends r' :=
  foldlM_induction (P := fun _ r' => r.Extends r') (.refl r)
    (fun _ _ _ _ _ more added => more.trans (extends_add added)) done

theorem Holds.foldlM_add {q : Package → Prop} (h : r.Holds q) (new : ∀ p ∈ packages, q p)
    (done : packages.foldlM Registry.add r = .ok r') : r'.Holds q :=
  foldlM_induction (P := fun _ r' => r'.Holds q) h
    (fun _ p hp _ _ holds added => holds.add (new p hp) added) done

theorem Sound.foldlM_add (h : r.Sound) (built : ∀ p ∈ packages, p.IsBuilt)
    (done : packages.foldlM Registry.add r = .ok r') : r'.Sound ∧ r.Extends r' :=
  ⟨Holds.foldlM_add h built done, extends_foldlM_add done⟩

/-- Packages that were added are registered. -/
theorem registered_foldlM_add (done : packages.foldlM Registry.add r = .ok r') :
    ∀ p ∈ packages, r'.get? p.id = some p := by
  refine foldlM_induction (P := fun taken r' => ∀ p ∈ taken, r'.get? p.id = some p) nofun ?_ done
  intro taken p _ r r' known added q hq
  rcases List.mem_append.1 hq with old | new
  · exact extends_add added _ _ (known q old)
  · rw [List.mem_singleton.1 new, get?_add added, if_pos rfl]

/-- Packages with different ids of which none is registered are added. -/
theorem exists_foldlM_add (unregistered : ∀ p ∈ packages, r.get? p.id = none)
    (nodup : (packages.map (·.id)).Nodup) : ∃ r', packages.foldlM Registry.add r = .ok r' := by
  induction packages generalizing r with
  | nil => exact ⟨r, rfl⟩
  | cons p rest ih =>
    simp only [List.map_cons, List.nodup_cons, List.mem_map, not_exists, not_and] at nodup
    have added := add_eq_ok.2 ⟨unregistered p (.head _), rfl⟩
    obtain ⟨r', others⟩ := ih (fun q hq => by
      rw [get?_add added, if_neg fun same => nodup.1 q hq same.symm]
      exact unregistered q (.tail _ hq)) nodup.2
    exact ⟨r', by rw [List.foldlM_cons, bind_eq_ok]; exact ⟨_, added, others⟩⟩

end Registry

end JigLedger
