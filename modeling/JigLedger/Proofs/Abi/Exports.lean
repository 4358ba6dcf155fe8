import JigLedger.Proofs.Abi.Names

/-!
# Exports under their names

No two exports of a document have the same name. So the index that is found for a name is the only
one of an export with this name, and whatever stands there in the resolved ABI is what the
declaration with this name describes.
-/

namespace JigLedger.Abi

variable {package : PackageId} {d : Document} {a : Abi} {idx : Nat} {name : String} {e : Export}
  {cls : Class} {f : Callable} (h : resolve package d = .ok a)

include h

/-- The index that is found for a name is that of the declaration with this name. -/
theorem exportIndex?_eq_some_iff :
    a.exportIndex? name = some idx ↔ ∃ decl, d.exports[idx]? = some decl ∧ decl.name = name := by
  obtain ⟨-, rfl, opened, -⟩ := resolve_eq_ok h
  obtain ⟨-, exports, -, distinct⟩ := Scope.ofDocument_eq_ok opened
  rw [exportIndex?, List.findIdx?_eq_some_iff_getElem]
  constructor
  · rintro ⟨inside, same, -⟩
    exact ⟨_, List.getElem?_eq_getElem inside, of_decide_eq_true same⟩
  · rintro ⟨decl, there, rfl⟩
    obtain ⟨inside, there⟩ := List.getElem?_eq_some_iff.1 there
    refine ⟨inside, decide_eq_true (congrArg _ there), fun j before same => ?_⟩
    -- Of two exports with one name the first would be found.
    have nodup : (a.document.exports.map (·.name)).Nodup := exports ▸ distinct.exports
    have again : (a.document.exports.map (·.name))[j]? =
        (a.document.exports.map (·.name))[idx]? := by
      rw [List.getElem?_map, List.getElem?_map, List.getElem?_eq_getElem inside,
        List.getElem?_eq_getElem (Nat.lt_trans before inside), there]
      exact congrArg some (of_decide_eq_true same)
    have first := (List.getElem?_inj (by simpa using Nat.lt_trans before inside) nodup).1 again
    exact absurd first (Nat.ne_of_lt before)

/-- What stands at the index of a name is what the declaration with this name describes. -/
theorem exists_of_exportIndex? (named : a.exportIndex? name = some idx)
    (there : a.exports[idx]? = some e) : ∃ decl, d.exports[idx]? = some decl ∧ decl.name = name ∧
      a.scope.resolveExport idx decl = .ok e := by
  obtain ⟨decl, declared, same⟩ := (exportIndex?_eq_some_iff h).1 named
  obtain ⟨-, -, -, exports⟩ := resolve_eq_ok h
  obtain ⟨decl', declared', resolved⟩ := Scope.exists_resolveExport exports idx e there
  obtain rfl : decl' = decl := Option.some.inj (declared'.symm.trans declared)
  rw [Nat.zero_add] at resolved
  exact ⟨decl', declared, same, resolved⟩

/-- A class under a name has this name, and its constructor is exported for it. -/
theorem class_of_exportIndex? (named : a.exportIndex? name = some idx)
    (hc : a.classAt idx = .ok cls) : cls.ref = ⟨package, name⟩ ∧ cls.exportIdx = idx ∧
      cls.constructor.exportName = s!"{name}_constructor" := by
  obtain ⟨decl, declared, resolved⟩ := exists_resolveClass_of_classAt h hc
  obtain ⟨other, declared', rfl⟩ := (exportIndex?_eq_some_iff h).1 named
  obtain rfl := Option.some.inj (declared'.symm.trans declared)
  obtain ⟨rfl, -, -, -⟩ := resolve_eq_ok h
  refine ⟨Scope.ref_resolveClass resolved, exportIdx_of_resolve h hc, ?_⟩
  simp only [Scope.resolveClass, Scope.callable, bind_eq_ok, pure, Except.pure,
    Except.ok.injEq] at resolved
  obtain ⟨_, -, _, -, _, -, _, ⟨_, -, _, -, rfl⟩, _, -, rfl⟩ := resolved
  rfl

/-- A function under a name has this name, and it is exported under it. -/
theorem function_of_exportIndex? (named : a.exportIndex? name = some idx)
    (hf : a.functionAt idx = .ok f) : f.name = name ∧ f.exportName = name := by
  have there : a.exports[idx]? = some (.ofFunction f) := by
    unfold functionAt at hf
    split at hf
    case h_1 found =>
      cases hf
      exact found
    all_goals cases hf
  obtain ⟨decl, -, rfl, resolved⟩ := exists_of_exportIndex? h named there
  cases decl <;> simp only [Scope.resolveExport, Scope.callable, bind_eq_ok, pure, Except.pure,
    Except.ok.injEq, Export.ofFunction.injEq] at resolved
  case ofFunction decl =>
    obtain ⟨_, ⟨_, -, _, -, rfl⟩, rfl⟩ := resolved
    exact ⟨rfl, rfl⟩
  all_goals
    obtain ⟨_, -, same⟩ := resolved
    cases same

end JigLedger.Abi
