import JigLedger.Proofs.Abi
import Mathlib.Logic.Relation

/-!
# Names in a document

A document that resolves exports each name once, and imports none of these, so that a name leads to
one declaration. Following the parents of a class leads from one exported class to the next, and it
ends: `Lineage` is the whole way. The ways from an interface to those that it extends may lead round
in circles.
-/

namespace JigLedger.Abi

variable {s : Scope} {d c : ClassDecl} {e : ExportDecl} {i : Import} {chain : List ClassDecl}
  {name : String} {ref : ClassRef}

namespace Scope

/-- Each name is exported or imported once. -/
structure Distinct (s : Scope) : Prop where
  exports : (s.exports.map (·.name)).Nodup
  imports : (s.imports.map (·.name)).Nodup
  apart : ∀ e ∈ s.exports, ∀ i ∈ s.imports, e.name ≠ i.name

/-- An import is what its declaration says. -/
def Imports (decl : ImportDecl) (i : Import) : Prop :=
  i.kind = decl.kind ∧ i.name = decl.name ∧ PackageId.parse decl.package = .ok i.package

theorem checkExports_eq_ok {seen : List String} {decls : List ExportDecl} :
    checkExports seen decls = .ok () ↔
      (decls.map (·.name)).Nodup ∧ ∀ e ∈ decls, e.name ∉ seen := by
  induction decls generalizing seen with
  | nil => simp [checkExports]
  | cons e rest ih =>
    rw [checkExports, List.map_cons, List.nodup_cons, List.forall_mem_cons]
    by_cases old : e.name ∈ seen
    · simp [old]
    · rw [if_neg old, ih]
      simp only [List.mem_cons, not_or, List.mem_map, not_exists, not_and]
      constructor
      · rintro ⟨nodup, others⟩
        exact ⟨⟨fun other ho => (others other ho).1, nodup⟩, old,
          fun other ho => (others other ho).2⟩
      · rintro ⟨⟨new, nodup⟩, -, others⟩
        exact ⟨nodup, fun other ho => ⟨new other ho, others other ho⟩⟩

theorem resolveImports_eq_ok {exports seen : List String} {decls : List ImportDecl}
    {imports : List Import} (h : resolveImports exports seen decls = .ok imports) :
    List.Forall₂ Imports decls imports ∧ (imports.map (·.name)).Nodup ∧
      ∀ i ∈ imports, i.name ∉ exports ∧ i.name ∉ seen := by
  induction decls generalizing seen imports with
  | nil =>
    cases h
    exact ⟨.nil, .nil, nofun⟩
  | cons decl rest ih =>
    unfold resolveImports at h
    split at h
    · cases h
    split at h
    · cases h
    simp only [bind_eq_ok, mapError_eq_ok, pure, Except.pure, Except.ok.injEq] at h
    obtain ⟨package, parsed, others, there, rfl⟩ := h
    rename_i exported seen'
    obtain ⟨each, nodup, new⟩ := ih there
    refine ⟨.cons ⟨rfl, rfl, parsed⟩ each, ?_, ?_⟩
    · rw [List.map_cons, List.nodup_cons]
      refine ⟨fun mem => ?_, nodup⟩
      obtain ⟨i, hi, same⟩ := List.mem_map.1 mem
      exact (new i hi).2 (same ▸ .head _)
    · rw [List.forall_mem_cons]
      exact ⟨⟨exported, seen'⟩, fun i hi => ⟨(new i hi).1, fun old => (new i hi).2 (.tail _ old)⟩⟩

/-- What the scope of a document is, and that its names are distinct. -/
theorem ofDocument_eq_ok {package : PackageId} {doc : Document}
    (h : ofDocument package doc = .ok s) : s.package = package ∧ s.exports = doc.exports ∧
      List.Forall₂ Imports doc.imports s.imports ∧ s.Distinct := by
  simp only [ofDocument, bind_eq_ok, pure, Except.pure, Except.ok.injEq] at h
  obtain ⟨⟨⟩, checked, imports, resolved, rfl⟩ := h
  obtain ⟨each, nodup, new⟩ := resolveImports_eq_ok resolved
  refine ⟨rfl, rfl, each, (checkExports_eq_ok.1 checked).1, nodup, fun e he i hi same => ?_⟩
  exact (new i hi).1 (same ▸ List.mem_map_of_mem he)

/-- An interface that is found is declared. -/
theorem declares_of_interfaceRef (named : s.interfaceRef name = .ok ref) :
    ref.name = name ∧ s.Declares .ofInterface ref := by
  unfold interfaceRef at named
  split at named
  case h_1 exported =>
    cases named
    exact ⟨rfl, declares_of_export? exported rfl⟩
  case h_2 imported _ =>
    cases named
    exact ⟨(mem_of_import? imported).2, declares_of_import? imported⟩
  case h_3 => cases named

/-- An interface of this package is named by the package. -/
theorem interfaceRef_of_export {d : InterfaceDecl}
    (exported : s.export? name = some (.ofInterface d)) :
    s.interfaceRef name = .ok ⟨s.package, name⟩ := by
  rw [interfaceRef, exported]

/-- An interface of this package extends another one, which may be imported. -/
def Extends (s : Scope) (i j : String) : Prop :=
  ∃ d, .ofInterface d ∈ s.exports ∧ d.name = i ∧ j ∈ d.parents

namespace Distinct

variable (h : s.Distinct)

include h

theorem export?_eq_some : s.export? name = some e ↔ e ∈ s.exports ∧ e.name = name :=
  find?_eq_some_iff_of_nodup h.exports

theorem import?_eq_some : s.import? name = some i ↔ i ∈ s.imports ∧ i.name = name :=
  find?_eq_some_iff_of_nodup h.imports

/-- Exports with one name are the same. -/
theorem export_eq {e' : ExportDecl} (he : e ∈ s.exports) (he' : e' ∈ s.exports)
    (same : e.name = e'.name) : e = e' :=
  List.inj_on_of_nodup_map h.exports he he' same

/-- A name that is imported is not exported. -/
theorem export?_eq_none (hi : i ∈ s.imports) : s.export? i.name = none :=
  List.find?_eq_none.2 fun e he => by simpa using h.apart e he i hi

/-- A name stands for an interface exactly if it is that of one that is declared. -/
theorem interfaceRef_eq_ok : s.interfaceRef name = .ok ref ↔
    ref.name = name ∧ s.Declares .ofInterface ref := by
  refine ⟨declares_of_interfaceRef, ?_⟩
  obtain ⟨package, name⟩ := ref
  rintro ⟨rfl, ⟨rfl, e, he, kind, rfl⟩ | ⟨⟨_, _, _⟩, hi, rfl, rfl, rfl⟩⟩
  · cases e <;> cases kind
    rw [interfaceRef, h.export?_eq_some.2 ⟨he, rfl⟩]
  · rw [interfaceRef, h.export?_eq_none hi, h.import?_eq_some.2 ⟨hi, rfl⟩]

/-- The parents of an interface are those that its declaration names. -/
theorem mem_parentsOf {i j : String} : j ∈ s.parentsOf i ↔ s.Extends i j := by
  unfold parentsOf
  constructor
  · intro mem
    split at mem
    case h_1 d exported =>
      obtain ⟨listed, named⟩ := mem_of_export? exported
      exact ⟨d, listed, named, mem⟩
    case h_2 => cases mem
  · rintro ⟨d, listed, named, mem⟩
    rw [h.export?_eq_some.2 ⟨listed, named⟩]
    exact mem

end Distinct

/-! ### Classes and their ancestors -/

/-- A class is derived from an exported class, its parent. -/
def Derives (s : Scope) (d p : ClassDecl) : Prop :=
  .ofClass p ∈ s.exports ∧ d.parent = some p.name

/-- An exported class and its ancestors, all of them exported classes, up to one without a
parent. -/
inductive Lineage (s : Scope) : ClassDecl → List ClassDecl → Prop
  | root {d : ClassDecl} (exported : .ofClass d ∈ s.exports) (first : d.parent = none) :
    Lineage s d [d]
  | derived {d p : ClassDecl} {chain : List ClassDecl} (exported : .ofClass d ∈ s.exports)
    (parent : s.Derives d p) (above : Lineage s p chain) : Lineage s d (d :: chain)

/-- The ancestors that are found are a lineage, and their names are different. -/
theorem lineage_of_ancestry {room : Nat} {below : List String} {e : ExportDecl}
    (exported : e ∈ s.exports) (h : s.ancestry room below e = .ok chain) :
    ∃ d, e = .ofClass d ∧ s.Lineage d chain ∧ (chain.map (·.name)).Nodup ∧
      ∀ c ∈ chain, c.name ∉ below := by
  fun_induction ancestry s room below e generalizing chain with
  | case1 | case3 | case4 | case6 => cases h
  | case2 room below d new first =>
    cases h
    exact ⟨d, rfl, .root exported first, by simp, by simpa using new⟩
  | case5 below d new parent isParent room next found ih =>
    obtain ⟨rest, above, same⟩ := bind_eq_ok.1 h
    cases same
    obtain ⟨listed, named⟩ := mem_of_export? found
    -- The ancestors avoid the name of `d` since it is among those below them.
    obtain ⟨p, rfl, chain, nodup, new'⟩ := ih listed above
    refine ⟨d, rfl, .derived exported ⟨listed, isParent.trans (congrArg some named.symm)⟩ chain,
      ?_, ?_⟩
    · rw [List.map_cons, List.nodup_cons]
      refine ⟨fun mem => ?_, nodup⟩
      obtain ⟨c, hc, again⟩ := List.mem_map.1 mem
      exact new' c hc (again ▸ .head _)
    · rw [List.forall_mem_cons]
      exact ⟨new, fun c hc old => new' c hc (.tail _ old)⟩

/-- A class has one parent. -/
theorem Distinct.parent_eq (h : s.Distinct) {p p' : ClassDecl} (hp : s.Derives d p)
    (hp' : s.Derives d p') : p = p' := by
  have same := h.export_eq hp.1 hp'.1 (Option.some.inj (hp.2.symm.trans hp'.2))
  cases same
  rfl

/-- A lineage consists of the classes that are reached by going from a class to its parent. -/
theorem Lineage.mem_iff (distinct : s.Distinct) (h : s.Lineage d chain) :
    c ∈ chain ↔ Relation.ReflTransGen s.Derives d c := by
  induction h with
  | root exported first =>
    rw [List.mem_singleton]
    constructor
    · rintro rfl
      exact .refl
    · intro way
      rcases way.cases_head with rfl | ⟨p, step, -⟩
      · rfl
      · exact absurd (first.symm.trans step.2) nofun
  | derived exported parent above ih =>
    rw [List.mem_cons, ih]
    constructor
    · rintro (rfl | way)
      · exact .refl
      · exact .head parent way
    · intro way
      rcases way.cases_head with rfl | ⟨p, step, way⟩
      · exact .inl rfl
      · exact .inr (distinct.parent_eq parent step ▸ way)

/-- Everything in a lineage is exported. -/
theorem Lineage.exported (h : s.Lineage d chain) : ∀ c ∈ chain, .ofClass c ∈ s.exports := by
  induction h with
  | root exported _ => simpa using exported
  | derived exported _ _ ih => exact List.forall_mem_cons.2 ⟨exported, ih⟩

/-- What is found as the lineage of a class is one, the root first. -/
theorem lineage_eq_ok (exported : .ofClass d ∈ s.exports) (h : s.lineage d = .ok chain) :
    s.Lineage d chain.reverse ∧ (chain.map (·.name)).Nodup := by
  obtain ⟨found, above, same⟩ := bind_eq_ok.1 h
  cases same
  obtain ⟨_, same, lineage, nodup, -⟩ := lineage_of_ancestry exported above
  cases same
  exact ⟨found.reverse_reverse.symm ▸ lineage, by
    rwa [List.map_reverse, List.nodup_reverse]⟩

/-! ### Interfaces whose parents have been looked at -/

section Accounted

variable {unexpanded : List String} {found : RefSet}

/-- All interfaces of this package have been found, but for those whose parents are still to be
looked at. -/
def Accounted (s : Scope) (unexpanded : List String) (found : RefSet) : Prop :=
  ∀ name d, s.export? name = some (.ofInterface d) → name ∉ unexpanded →
    found.contains ⟨s.package, name⟩ = true

theorem accounted_exports (s : Scope) (found : RefSet) :
    s.Accounted (s.exports.map (·.name)) found := by
  intro name d exported missing
  obtain ⟨listed, named⟩ := mem_of_export? exported
  exact absurd (named ▸ List.mem_map_of_mem listed) missing

theorem Accounted.insert (h : s.Accounted unexpanded found) (ref : ClassRef) :
    s.Accounted unexpanded (found.insert ref) := by
  intro name d exported missing
  rw [Std.ExtTreeSet.contains_insert, h name d exported missing, Bool.or_true]

/-- An interface is found when its parents are looked at. -/
theorem Accounted.expand (h : s.Accounted unexpanded found)
    (named : s.interfaceRef name = .ok ref) :
    s.Accounted (unexpanded.erase name) (found.insert ref) := by
  intro other d exported missing
  by_cases same : other = name
  · subst same
    rw [interfaceRef_of_export exported] at named
    cases named
    exact Std.ExtTreeSet.contains_insert_self
  · exact h.insert ref other d exported fun mem => missing ((List.mem_erase_of_ne same).2 mem)

/-- What has not been found and is not to be expanded has no parents. -/
theorem Accounted.parentsOf_eq_nil (h : s.Accounted unexpanded found)
    (named : s.interfaceRef name = .ok ref) (new : ¬ found.contains ref = true)
    (missing : name ∉ unexpanded) : s.parentsOf name = [] := by
  unfold parentsOf
  split
  case h_1 d exported =>
    rw [interfaceRef_of_export exported] at named
    cases named
    exact absurd (h name d exported missing) new
  case h_2 => rfl

end Accounted

end Scope

end JigLedger.Abi
