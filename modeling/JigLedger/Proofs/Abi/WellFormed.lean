import JigLedger.Proofs.Abi.Names
import JigLedger.Proofs.Abi.Clocked

/-!
# Resolved ABIs are well-formed

Whatever a document says, its resolution comes to an end. If it gives an ABI, names are distinct,
classes have lineages, and everything that can be stored, passed or returned has a well-formed type,
in which classes and interfaces are demanded only where they are declared as such.
-/

namespace JigLedger.Abi

/-! ### Exports and their types -/

/-- The types of the parameters and of the result. -/
def Callable.types (c : Callable) : List Ty := c.params.map (·.ty) ++ c.result.toList

/-- The types of the fields, and those of the constructor and of the methods. -/
def Class.types (c : Class) : List Ty :=
  c.fieldTypes ++ c.constructor.types ++ c.methods.flatMap (·.types)

/-- The types of everything that an export can store, take or return. -/
def Export.types : Export → List Ty
  | .ofClass c => c.types
  | .ofFunction f => f.types
  | .ofInterface _ | .object => []

/-- An export is of the kind that is declared, and has its name. -/
def ExportDecl.Describes : ExportDecl → Export → Prop
  | ofClass d, .ofClass c => c.name = d.name ∧ c.parent = d.parent
  | ofFunction d, .ofFunction f => f.name = d.name
  | ofInterface d, .ofInterface i => i.ref.name = d.name
  | ofObject _, .object => True
  | _, _ => False

/-- Names are distinct, there is an export for each declaration, the ancestors of classes are
finitely many classes of the same package, and all types are well-formed. -/
structure WellFormed (a : Abi) : Prop where
  distinct : a.scope.Distinct
  described : List.Forall₂ ExportDecl.Describes a.document.exports a.exports
  lineage : ∀ d, .ofClass d ∈ a.document.exports →
    ∃ chain, a.scope.Lineage d chain ∧ (chain.map (·.name)).Nodup
  types : ∀ e ∈ a.exports, ∀ t ∈ e.types, t.WellFormed a.scope.Knows
  objects : ∀ d, .ofObject d ∈ a.document.exports → ∃ fields size,
    a.scope.object d = .ok (.object d.name fields size) ∧
      (Ty.object d.name fields size).WellFormed a.scope.Knows

namespace Scope

variable {s : Scope} {exportIdx : Nat}

/-- Parameters and results have well-formed types. -/
theorem wellFormed_callable {d : MethodDecl} {exportName : String} {c : Callable}
    (h : s.callable d exportName = .ok c) : ∀ t ∈ c.types, t.WellFormed s.Knows := by
  simp only [callable, bind_eq_ok, pure, Except.pure, Except.ok.injEq] at h
  obtain ⟨params, resolved, result, typed, rfl⟩ := h
  intro t mem
  rcases List.mem_append.1 mem with mem | mem
  · obtain ⟨f, hf, rfl⟩ := List.mem_map.1 mem
    exact wellFormed_fieldsWith bare_object resolved _ (Layout.exists_of_mem_place hf)
  · rw [Option.mem_toList] at mem
    cases mem
    obtain ⟨e, -, typed⟩ := exists_of_mapM_eq_ok_some typed
    exact wellFormed_type typed

theorem mem_putMethod {m other : Callable} {table : List Callable}
    (h : other ∈ putMethod m table) : other = m ∨ other ∈ table := by
  induction table with
  | nil => exact .inl (List.mem_singleton.1 h)
  | cons first rest ih =>
    rw [putMethod] at h
    split at h <;> rcases List.mem_cons.1 h with rfl | h
    · exact .inl rfl
    · exact .inr (.tail _ h)
    · exact .inr (.head _)
    · exact (ih h).imp_right (.tail _)

/-- Inherited methods and those that override them have well-formed types. -/
theorem wellFormed_methods {lineage : List ClassDecl} {table : List Callable}
    (h : lineage.foldlM s.addMethods [] = .ok table) :
    ∀ m ∈ table, ∀ t ∈ m.types, t.WellFormed s.Knows := by
  refine foldlM_induction (P := fun _ table => ∀ m ∈ table, ∀ t ∈ m.types, t.WellFormed s.Knows)
    nofun (fun _ d _ table table' formed added => ?_) h
  refine foldlM_induction (P := fun _ table => ∀ m ∈ table, ∀ t ∈ m.types, t.WellFormed s.Knows)
    formed (fun _ m _ table table' formed put => ?_) added
  obtain ⟨c, resolved, same⟩ := bind_eq_ok.1 put
  cases same
  intro other mem
  rcases mem_putMethod mem with rfl | old
  · exact wellFormed_callable resolved
  · exact formed other old

/-- A class that is resolved has well-formed types, and it is the one that is declared. -/
theorem wellFormed_resolveClass {d : ClassDecl} {c : Class}
    (h : s.resolveClass exportIdx d = .ok c) :
    (c.name = d.name ∧ c.parent = d.parent) ∧ ∀ t ∈ c.types, t.WellFormed s.Knows := by
  simp only [resolveClass, bind_eq_ok, pure, Except.pure, Except.ok.injEq] at h
  obtain ⟨lineage, -, fields, declared, methods, added, constructor, resolved, _, -, rfl⟩ := h
  refine ⟨⟨rfl, rfl⟩, fun t mem => ?_⟩
  simp only [Class.types, List.mem_append, List.mem_flatMap] at mem
  rcases mem with (field | param) | ⟨m, hm, mem⟩
  · obtain ⟨f, hf, rfl⟩ := List.mem_map.1 field
    obtain ⟨e, typed⟩ := exists_type_lineageFields declared _ (Layout.exists_of_mem_place hf)
    exact wellFormed_type typed
  · refine wellFormed_callable resolved t (List.mem_append_left _ ?_)
    simpa [Callable.types] using param
  · exact wellFormed_methods added m hm t mem

/-- An export that is resolved has well-formed types, and it is the one that is declared. -/
theorem wellFormed_resolveExport {d : ExportDecl} {e : Export}
    (h : s.resolveExport exportIdx d = .ok e) :
    d.Describes e ∧ ∀ t ∈ e.types, t.WellFormed s.Knows := by
  cases d <;> simp only [resolveExport, bind_eq_ok, pure, Except.pure, Except.ok.injEq] at h
  case ofClass d =>
    obtain ⟨c, resolved, rfl⟩ := h
    exact wellFormed_resolveClass resolved
  case ofFunction d =>
    obtain ⟨f, resolved, rfl⟩ := h
    refine ⟨?_, wellFormed_callable resolved⟩
    simp only [callable, bind_eq_ok, pure, Except.pure, Except.ok.injEq] at resolved
    obtain ⟨_, -, _, -, rfl⟩ := resolved
    rfl
  case ofInterface d =>
    obtain ⟨_, -, rfl⟩ := h
    exact ⟨rfl, List.forall_mem_nil _⟩
  case ofObject d =>
    obtain ⟨_, -, rfl⟩ := h
    exact ⟨trivial, List.forall_mem_nil _⟩

end Scope

/-! ### Documents -/

variable {package : PackageId} {d : Document} {a : Abi}

/-- Every declaration has been resolved to the export at its index. -/
theorem forall₂_resolveExport (h : resolve package d = .ok a) :
    List.Forall₂ (fun decl e => ∃ idx, a.scope.resolveExport idx decl = .ok e) d.exports
      a.exports := by
  obtain ⟨-, -, -, resolved⟩ := resolve_eq_ok h
  refine List.forall₂_iff_get.2 ⟨(Scope.length_resolveExports resolved).symm, fun i hd he => ?_⟩
  obtain ⟨decl, declared, here⟩ :=
    Scope.exists_resolveExport resolved i _ (List.getElem?_eq_getElem he)
  rw [List.getElem?_eq_getElem hd] at declared
  cases declared
  exact ⟨_, here⟩

/-- What a document resolves to is well-formed. -/
theorem wellFormed_of_resolve (h : resolve package d = .ok a) : a.WellFormed := by
  have each := forall₂_resolveExport h
  have every := exists_forall₂.1 ⟨_, each⟩
  have sources := exists_forall₂.1 ⟨_, each.flip⟩
  obtain ⟨rfl, rfl, opened, -⟩ := resolve_eq_ok h
  obtain ⟨-, -, -, distinct⟩ := Scope.ofDocument_eq_ok opened
  refine ⟨distinct, ?_, fun d hd => ?_, fun d hd => ?_, fun d hd => ?_⟩
  · exact each.imp fun _ _ ⟨_, resolved⟩ => (Scope.wellFormed_resolveExport resolved).1
  · obtain ⟨_, _, resolved⟩ := every _ hd
    obtain ⟨cls, resolved, -⟩ := bind_eq_ok.1 resolved
    obtain ⟨chain, lineage, -⟩ := bind_eq_ok.1 resolved
    obtain ⟨lineage, nodup⟩ := Scope.lineage_eq_ok hd lineage
    exact ⟨chain.reverse, lineage, by rwa [List.map_reverse, List.nodup_reverse]⟩
  · obtain ⟨decl, _, resolved⟩ := sources d hd
    exact (Scope.wellFormed_resolveExport resolved).2
  · obtain ⟨_, _, resolved⟩ := every _ hd
    obtain ⟨t, typed, -⟩ := bind_eq_ok.1 resolved
    obtain ⟨⟨formed, -⟩, fields, size, rfl⟩ := Scope.bare_objectType typed
    exact ⟨fields, size, typed, formed⟩

/-- Every document either resolves to a well-formed ABI or fails, and it takes only finitely many
calls to find out. -/
theorem resolve_terminates_wellFormed (package : PackageId) (d : Document) :
    (∃ enough, ∀ clock ≥ enough,
      (Clocked.resolve clock package d).run = some (resolve package d)) ∧
      ∀ a, resolve package d = .ok a → a.package = package ∧ a.document = d ∧
        List.Forall₂ Scope.Imports d.imports a.imports ∧ a.WellFormed := by
  refine ⟨Clocked.ends_resolve package d, fun a h => ?_⟩
  obtain ⟨same, document, opened, -⟩ := resolve_eq_ok h
  obtain ⟨-, -, imports, -⟩ := Scope.ofDocument_eq_ok opened
  exact ⟨same, document, imports, wellFormed_of_resolve h⟩

/-! ### Shepherds and farmers -/

namespace Farm

/-- The package that exports the interface. -/
def elsewhere : PackageId := ⟨⟨List.replicate 32 0, rfl⟩⟩

/-- The package that imports it. -/
def home : PackageId := ⟨⟨List.replicate 32 1, rfl⟩⟩

/-- Farmers are shepherds with land. -/
def farmer : ClassDecl :=
  ⟨"Farmer", some "Shepherd", ["Named"], [⟨"land", .mk "u64" false []⟩], []⟩

/-- Two interfaces that extend each other, one of them an imported one as well; objects that demand
a jig of a class that holds such objects; and a class that implements what its parent does. -/
def document : Document where
  version := 1
  exports := [
    .ofInterface ⟨"Named", ["Aged"], []⟩,
    .ofInterface ⟨"Aged", ["Named", "Marked"], []⟩,
    .ofObject ⟨"Tag", [⟨"number", .mk "u8" false []⟩, ⟨"owner", .mk "Shepherd" true []⟩]⟩,
    .ofClass ⟨"Shepherd", none, ["Aged"], [⟨"tags", .mk "Map" false [.mk "string" false [],
      .mk "Array" false [.mk "Tag" true []]]⟩], []⟩,
    .ofClass farmer]
  imports := [⟨.ofInterface, "Marked",
    "0000000000000000000000000000000000000000000000000000000000000000"⟩]

/-- The names that can be referred to in a package with this document. -/
def scope (package : PackageId) : Scope :=
  ⟨package, document.exports, [⟨.ofInterface, "Marked", elsewhere⟩]⟩

theorem ofDocument_document (package : PackageId) :
    Scope.ofDocument package document = .ok (scope package) := by
  refine bind_eq_ok.2 ⟨_, rfl, bind_eq_ok.2 ⟨_, ?_, rfl⟩⟩
  refine bind_eq_ok.2 ⟨elsewhere, mapError_eq_ok.2 (by decide +kernel), rfl⟩

theorem exists_resolveExports (package : PackageId) :
    ∃ exports, (scope package).resolveExports 0 document.exports = .ok exports := by
  simp [scope, document, farmer, Scope.resolveExports, Scope.resolveExport, Scope.resolveClass,
    Scope.closeOver, Scope.interfaceRef, Scope.export?, ExportDecl.name, bind, Except.bind,
    Scope.parentsOf, Scope.import?, Std.ExtTreeSet.contains_insert, Scope.lineage, Scope.ancestry,
    pure, Except.pure, Scope.lineageFields, Scope.addMethods, Scope.addClass, Scope.callable,
    Scope.lineageConstructor, Scope.fieldsWith, Scope.type, Scope.typeWith, Scope.baseWith,
    Scope.primitive?, Scope.namedType, Scope.isKey, Scope.typesWith, Scope.checkArity, Scope.object,
    Scope.objectType, Ty.isScalar]

theorem exists_resolve (package : PackageId) : ∃ a, resolve package document = .ok a := by
  obtain ⟨exports, resolved⟩ := exists_resolveExports package
  exact ⟨_, bind_eq_ok.2 ⟨_, ofDocument_document package, bind_eq_ok.2 ⟨exports, resolved, rfl⟩⟩⟩

end Farm

/-- The interfaces that extend each other do not keep the document from being resolved. -/
theorem resolve_terminates_wellFormed_farm : ∃ a, resolve Farm.home Farm.document = .ok a ∧
    a.package = Farm.home ∧ a.document = Farm.document ∧
      List.Forall₂ Scope.Imports Farm.document.imports a.imports ∧ a.WellFormed := by
  obtain ⟨a, resolved⟩ := Farm.exists_resolve Farm.home
  exact ⟨a, resolved, (resolve_terminates_wellFormed Farm.home Farm.document).2 a resolved⟩

end JigLedger.Abi
