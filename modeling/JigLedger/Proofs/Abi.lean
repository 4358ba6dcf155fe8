import JigLedger.Abi.Resolve
import JigLedger.Proofs.Except

/-!
# What resolved ABIs consist of

Every class of a resolved ABI comes from a declaration. Its fields, like those of objects, stand
for what is declared, one after the other, and no type makes a nullable type nullable once more, so
that null is unambiguous.
-/

namespace JigLedger

/-! ### Layouts -/

namespace Layout

/-- Placing fields changes neither their names nor their types. -/
theorem declared_placeFrom (fields : List (String × Ty)) (offset widest : UInt32) :
    (placeFrom offset widest fields).1.map (fun f => (f.name, f.ty)) = fields := by
  induction fields generalizing offset widest with
  | nil => rfl
  | cons f rest ih => simp only [placeFrom, List.map_cons, ih]

/-- The type of a field that has been placed is that of a field to be placed. -/
theorem exists_of_mem_place {start : UInt32} {fields : List (String × Ty)} {f : Field}
    (h : f ∈ (place start fields).1) : (f.name, f.ty) ∈ fields := by
  have placed : f ∈ (placeFrom start 1 fields).1 := h
  have declared := List.mem_map_of_mem (f := fun f : Field => (f.name, f.ty)) placed
  rwa [declared_placeFrom] at declared

end Layout

/-! ### Proper types -/

namespace Ty

/-- The values of a type hold no other values. -/
def isLeaf : Ty → Bool
  | string | bytes | jig _ => true
  | t => t.isScalar

/-- Null is a value of a type. -/
def isNullable : Ty → Bool
  | nullable _ => true
  | _ => false

/-- Types whose maps have plain keys and whose objects are laid out from their declared fields, and
in which no nullable type is made nullable once more. -/
inductive Proper : Ty → Prop
  | leaf {t : Ty} (plain : t.isLeaf = true) : Proper t
  | array {item : Ty} (h : Proper item) : Proper (.array item)
  | map {k v : Ty} (plain : k.isLeaf = true) (h : Proper v) : Proper (.map k v)
  | nullable {t : Ty} (once : t.isNullable = false) (h : Proper t) : Proper (.nullable t)
  | object {name : String} {fields : List Field} {size : UInt32}
      (laid : ∃ declared, Layout.place 0 declared = (fields, size))
      (h : ∀ f ∈ fields, Proper f.ty) : Proper (.object name fields size)

/-- Types in which the keys of maps are scalars or text, no nullable type is made nullable once
more, objects have the layout of their fields, and jigs are asked for what is known. -/
inductive WellFormed (known : JigTy → Prop) : Ty → Prop
  | scalar {t : Ty} (plain : t.isScalar = true) : WellFormed known t
  | string : WellFormed known .string
  | bytes : WellFormed known .bytes
  | array {item : Ty} (h : WellFormed known item) : WellFormed known (.array item)
  | map {k v : Ty} (key : k.isScalar = true ∨ k = .string) (h : WellFormed known v) :
    WellFormed known (.map k v)
  | nullable {t : Ty} (once : t.isNullable = false) (h : WellFormed known t) :
    WellFormed known (.nullable t)
  | object {name : String} {fields : List Field} {size : UInt32}
      (laid : Layout.place 0 (fields.map fun f => (f.name, f.ty)) = (fields, size))
      (h : ∀ f ∈ fields, WellFormed known f.ty) : WellFormed known (.object name fields size)
  | jig {demand : JigTy} (h : known demand) : WellFormed known (.jig demand)

theorem isLeaf_of_isScalar {t : Ty} (h : t.isScalar = true) : t.isLeaf = true := by
  cases t <;> first | rfl | cases h

/-- Well-formed types are proper. -/
theorem WellFormed.proper {known : JigTy → Prop} {t : Ty} (h : t.WellFormed known) : t.Proper := by
  induction h with
  | scalar plain => exact .leaf (isLeaf_of_isScalar plain)
  | string => exact .leaf rfl
  | bytes => exact .leaf rfl
  | array _ ih => exact .array ih
  | map key _ ih =>
    rcases key with plain | rfl
    · exact .map (isLeaf_of_isScalar plain) ih
    · exact .map rfl ih
  | nullable once _ ih => exact .nullable once ih
  | object laid _ ih => exact .object ⟨_, laid⟩ ih
  | jig _ => exact .leaf rfl

/-- The type is what some declaration means. -/
def IsResolved (t : Ty) : Prop := ∃ (s : Abi.Scope) (e : Abi.TypeExpr), s.type e = .ok t

end Ty

namespace Abi

/-- What an export is, as far as it can be imported. -/
def ExportDecl.kind? : ExportDecl → Option ImportKind
  | ofClass _ => some .ofClass
  | ofFunction _ => some .ofFunction
  | ofInterface _ => some .ofInterface
  | ofObject _ => none

namespace Scope

variable {s : Scope} {object : ObjectDecl → Except AbiError Ty}

/-- A reference leads to an export of this package or to an import, and that is of a kind. -/
def Declares (s : Scope) (kind : ImportKind) (ref : ClassRef) : Prop :=
  (ref.package = s.package ∧ ∃ d ∈ s.exports, d.kind? = some kind ∧ d.name = ref.name) ∨
    ∃ i ∈ s.imports, i.kind = kind ∧ i.name = ref.name ∧ i.package = ref.package

/-- What a slot asks for is any jig, or a class or an interface that is declared as such. -/
def Knows (s : Scope) : JigTy → Prop
  | .any => True
  | .ofClass ref => s.Declares .ofClass ref
  | .ofInterface ref => s.Declares .ofInterface ref

theorem mem_of_export? {name : String} {d : ExportDecl} (found : s.export? name = some d) :
    d ∈ s.exports ∧ d.name = name :=
  ⟨List.mem_of_find?_eq_some found, by simpa using List.find?_some found⟩

theorem mem_of_import? {name : String} {i : Import} (found : s.import? name = some i) :
    i ∈ s.imports ∧ i.name = name :=
  ⟨List.mem_of_find?_eq_some found, by simpa using List.find?_some found⟩

/-- What is exported is declared. -/
theorem declares_of_export? {name : String} {d : ExportDecl} {kind : ImportKind}
    (found : s.export? name = some d) (hk : d.kind? = some kind) :
    s.Declares kind ⟨s.package, name⟩ :=
  have ⟨mem, named⟩ := mem_of_export? found
  .inl ⟨rfl, d, mem, hk, named⟩

/-- What is imported is declared. -/
theorem declares_of_import? {name : String} {i : Import} (found : s.import? name = some i) :
    s.Declares i.kind ⟨i.package, i.name⟩ :=
  .inr ⟨i, (mem_of_import? found).1, rfl, rfl, rfl⟩

/-- Types that are well-formed and not nullable: those that a name and its arguments stand for. -/
def Bare (s : Scope) (t : Ty) : Prop := t.WellFormed s.Knows ∧ t.isNullable = false

theorem key_of_isKey {t : Ty} (h : isKey t = true) : t.isScalar = true ∨ t = .string := by
  cases t <;> first | exact .inl rfl | exact .inr rfl | cases h

theorem bare_of_primitive? {name : String} {t : Ty} (h : primitive? name = some t) : s.Bare t := by
  unfold primitive? at h
  split at h
  all_goals cases h
  all_goals first | exact ⟨.scalar rfl, rfl⟩ | exact ⟨.string, rfl⟩ | exact ⟨.bytes, rfl⟩

/-- A primitive type is written by its name. -/
theorem typeWith_primitive {name : String} {t : Ty} (h : primitive? name = some t) :
    s.typeWith object (.mk name false []) = .ok t := by
  simp [typeWith, baseWith, h, checkArity, bind, Except.bind, pure, Except.pure]

theorem bare_namedType (objects : ∀ d t, object d = .ok t → s.Bare t) {name : String} {t : Ty}
    (h : s.namedType object name = .ok t) : s.Bare t := by
  unfold namedType at h
  split at h
  case h_1 exported =>
    cases h
    exact ⟨.jig (declares_of_export? exported rfl), rfl⟩
  case h_2 exported =>
    cases h
    exact ⟨.jig (declares_of_export? exported rfl), rfl⟩
  case h_3 d _ => exact objects d t h
  case h_4 => cases h
  case h_5 =>
    split at h
    case h_1 imported =>
      cases h
      exact ⟨.jig (declares_of_import? imported), rfl⟩
    case h_2 imported =>
      cases h
      exact ⟨.jig (declares_of_import? imported), rfl⟩
    all_goals cases h

mutual

theorem wellFormed_typeWith (objects : ∀ d t, object d = .ok t → s.Bare t) :
    (e : TypeExpr) → (t : Ty) → s.typeWith object e = .ok t → t.WellFormed s.Knows
  | .mk name nullable args, t, h => by
    simp only [typeWith, bind_eq_ok, pure, Except.pure, Except.ok.injEq] at h
    obtain ⟨inner, resolved, rfl⟩ := h
    obtain ⟨formed, once⟩ := bare_baseWith objects name args inner resolved
    cases nullable
    · exact formed
    · exact .nullable once formed

theorem bare_baseWith (objects : ∀ d t, object d = .ok t → s.Bare t) (name : String) :
    (args : List TypeExpr) → (t : Ty) → s.baseWith object name args = .ok t → s.Bare t
  | args, t, h => by
    unfold baseWith at h
    split at h
    case h_1 primitive =>
      obtain ⟨_, -, same⟩ := bind_eq_ok.1 h
      cases same
      exact bare_of_primitive? primitive
    case h_2 =>
      split at h
      · cases h
      split at h
      · obtain ⟨_, -, h⟩ := bind_eq_ok.1 h
        obtain ⟨types, resolved, h⟩ := bind_eq_ok.1 h
        split at h
        case h_1 item =>
          cases h
          exact ⟨.array (wellFormed_typesWith objects args _ resolved item (.head _)), rfl⟩
        case h_2 => cases h
      split at h
      · obtain ⟨_, -, h⟩ := bind_eq_ok.1 h
        split at h
        case h_1 k v h =>
          obtain ⟨key, -, h⟩ := bind_eq_ok.1 h
          split at h
          case isTrue plain =>
            obtain ⟨value, resolved, h⟩ := bind_eq_ok.1 h
            cases h
            exact ⟨.map (key_of_isKey plain) (wellFormed_typeWith objects v value resolved), rfl⟩
          case isFalse => cases h
        case h_2 => cases h
      split at h
      · obtain ⟨_, -, h⟩ := bind_eq_ok.1 h
        cases h
        exact ⟨.jig trivial, rfl⟩
      · obtain ⟨_, -, h⟩ := bind_eq_ok.1 h
        exact bare_namedType objects h

theorem wellFormed_typesWith (objects : ∀ d t, object d = .ok t → s.Bare t) :
    (args : List TypeExpr) → (types : List Ty) → s.typesWith object args = .ok types →
      ∀ t ∈ types, t.WellFormed s.Knows
  | [], types, h, t, mem => by
    simp only [typesWith, Except.ok.injEq] at h
    subst h
    cases mem
  | e :: rest, types, h, t, mem => by
    simp only [typesWith, bind_eq_ok, pure, Except.pure, Except.ok.injEq] at h
    obtain ⟨ty, here, others, there, rfl⟩ := h
    rcases List.mem_cons.1 mem with rfl | mem
    · exact wellFormed_typeWith objects e t here
    · exact wellFormed_typesWith objects rest others there t mem

end

/-- The types of fields that are written are well-formed. -/
theorem wellFormed_fieldsWith (objects : ∀ d t, object d = .ok t → s.Bare t)
    {decls : List FieldDecl} {fields : List (String × Ty)}
    (h : s.fieldsWith object decls = .ok fields) : ∀ f ∈ fields, f.2.WellFormed s.Knows := by
  intro f mem
  obtain ⟨decl, -, here⟩ := exists_of_mapM_eq_ok h mem
  obtain ⟨ty, typed, same⟩ := bind_eq_ok.1 here
  cases same
  exact wellFormed_typeWith objects decl.ty ty typed

/-- Objects have well-formed types with their own names. -/
theorem bare_objectType {room : Nat} {visiting : List String} {d : ObjectDecl} {t : Ty}
    (h : s.objectType room visiting d = .ok t) :
    s.Bare t ∧ ∃ fields size, t = .object d.name fields size := by
  induction room generalizing visiting d t with
  | zero => cases h
  | succ room ih =>
    unfold objectType at h
    split at h
    · cases h
    · obtain ⟨fields, resolved, same⟩ := bind_eq_ok.1 h
      cases same
      refine ⟨⟨.object ?_ fun f mem => ?_, rfl⟩, _, _, rfl⟩
      · rw [Layout.declared_placeFrom]
        rfl
      · exact wellFormed_fieldsWith (fun d t h => (ih h).1) resolved (f.name, f.ty)
          (Layout.exists_of_mem_place mem)

theorem bare_object (d : ObjectDecl) (t : Ty) (h : s.object d = .ok t) : s.Bare t :=
  (bare_objectType h).1

/-- Every type that is written is well-formed. -/
theorem wellFormed_type {e : TypeExpr} {t : Ty} (h : s.type e = .ok t) : t.WellFormed s.Knows :=
  wellFormed_typeWith bare_object e t h

/-- Every type that is written is proper. -/
theorem proper_type {e : TypeExpr} {t : Ty} (h : s.type e = .ok t) : t.Proper :=
  (wellFormed_type h).proper

end Scope

end Abi

/-! ### Classes -/

namespace Abi

/-- The field types of a lineage are those that are declared. -/
theorem Scope.exists_type_lineageFields {s : Scope} {name : String} :
    ∀ {decls : List FieldDecl} {seen : List String} {fields : List (String × Ty)},
      s.lineageFields name seen decls = .ok fields → ∀ f ∈ fields, ∃ e, s.type e = .ok f.2
  | [], _, _, h, _, mem => by
    cases h
    cases mem
  | decl :: rest, seen, _, h, f, mem => by
    unfold lineageFields at h
    split at h
    · cases h
    · simp only [bind_eq_ok, pure, Except.pure, Except.ok.injEq] at h
      obtain ⟨ty, here, others, there, rfl⟩ := h
      rcases List.mem_cons.1 mem with rfl | mem
      · exact ⟨decl.ty, here⟩
      · exact exists_type_lineageFields there f mem

/-- The fields of a class are laid out behind its header, and their types are declared. -/
theorem Scope.fields_resolveClass {s : Scope} {exportIdx : Nat} {d : ClassDecl} {cls : Class}
    (h : s.resolveClass exportIdx d = .ok cls) :
    ∃ fields, (∀ f ∈ fields, f.2.IsResolved) ∧
      Layout.place jigHeaderSize fields = (cls.fields, cls.size) := by
  simp only [resolveClass, bind_eq_ok, pure, Except.pure, Except.ok.injEq] at h
  obtain ⟨_, -, fields, resolved, _, -, _, -, _, -, rfl⟩ := h
  exact ⟨fields, fun f mem => ⟨s, exists_type_lineageFields resolved f mem⟩, rfl⟩

/-- A class that was resolved belongs to the package that it was resolved for, under its name. -/
theorem Scope.ref_resolveClass {s : Scope} {exportIdx : Nat} {d : ClassDecl} {cls : Class}
    (h : s.resolveClass exportIdx d = .ok cls) : cls.ref = ⟨s.package, d.name⟩ := by
  simp only [resolveClass, bind_eq_ok, pure, Except.pure, Except.ok.injEq] at h
  obtain ⟨_, -, _, -, _, -, _, -, _, -, rfl⟩ := h
  rfl

theorem Scope.exportIdx_resolveClass {s : Scope} {exportIdx : Nat} {d : ClassDecl} {cls : Class}
    (h : s.resolveClass exportIdx d = .ok cls) : cls.exportIdx = exportIdx := by
  simp only [resolveClass, bind_eq_ok, pure, Except.pure, Except.ok.injEq] at h
  obtain ⟨_, -, _, -, _, -, _, -, _, -, rfl⟩ := h
  rfl

/-- There is an export for each declaration. -/
theorem Scope.length_resolveExports {s : Scope} : ∀ {decls : List ExportDecl} {exportIdx : Nat}
    {exports : List Export}, s.resolveExports exportIdx decls = .ok exports →
      exports.length = decls.length
  | [], _, _, h => by
    cases h
    rfl
  | _ :: _, _, _, h => by
    simp only [resolveExports, bind_eq_ok, pure, Except.pure, Except.ok.injEq] at h
    obtain ⟨_, -, es, others, rfl⟩ := h
    rw [List.length_cons, List.length_cons, length_resolveExports others]

/-- Each export comes from the declaration at its index. -/
theorem Scope.exists_resolveExport {s : Scope} : ∀ {decls : List ExportDecl} {exportIdx : Nat}
    {exports : List Export}, s.resolveExports exportIdx decls = .ok exports →
      ∀ offset e, exports[offset]? = some e →
        ∃ d, decls[offset]? = some d ∧ s.resolveExport (exportIdx + offset) d = .ok e
  | [], _, _, h, _, _, there => by
    cases h
    simp at there
  | decl :: rest, exportIdx, _, h, offset, e, there => by
    simp only [resolveExports, bind_eq_ok, pure, Except.pure, Except.ok.injEq] at h
    obtain ⟨_, here, es, others, rfl⟩ := h
    cases offset with
    | zero =>
      cases there
      exact ⟨decl, rfl, here⟩
    | succ offset =>
      obtain ⟨d, declared, resolved⟩ := exists_resolveExport others offset e there
      exact ⟨d, declared, Nat.succ_add_eq_add_succ exportIdx offset ▸ resolved⟩

/-- Classes are exported for classes only. -/
theorem Scope.exists_of_resolveExport_ofClass {s : Scope} {exportIdx : Nat} {d : ExportDecl}
    {cls : Class} (h : s.resolveExport exportIdx d = .ok (.ofClass cls)) :
    ∃ decl, d = .ofClass decl ∧ s.resolveClass exportIdx decl = .ok cls := by
  cases d <;> simp only [resolveExport, bind_eq_ok, pure, Except.pure, Except.ok.injEq] at h
  case ofClass decl =>
    obtain ⟨found, resolved, same⟩ := h
    cases same
    exact ⟨decl, rfl, resolved⟩
  all_goals
    obtain ⟨_, -, h⟩ := h
    cases h

/-- The names that a resolved ABI refers to. -/
def scope (a : Abi) : Scope := ⟨a.package, a.document.exports, a.imports⟩

section Resolved

variable {package : PackageId} {d : Document} {a : Abi} {idx : Nat} {cls : Class}

/-- A document is resolved in the scope that it opens. -/
theorem resolve_eq_ok (h : resolve package d = .ok a) :
    a.package = package ∧ a.document = d ∧ Scope.ofDocument package d = .ok a.scope ∧
      a.scope.resolveExports 0 d.exports = .ok a.exports := by
  simp only [resolve, bind_eq_ok, pure, Except.pure, Except.ok.injEq] at h
  obtain ⟨scope, opened, exports, resolved, rfl⟩ := h
  have same : scope = ⟨package, d.exports, scope.imports⟩ := by
    simp only [Scope.ofDocument, bind_eq_ok, pure, Except.pure, Except.ok.injEq] at opened
    obtain ⟨_, -, _, -, rfl⟩ := opened
    rfl
  exact ⟨rfl, rfl, opened.trans (congrArg _ same), same ▸ resolved⟩

/-- A class of a resolved ABI comes from the declaration at its index. -/
theorem exists_resolveClass_of_classAt (h : resolve package d = .ok a)
    (hc : a.classAt idx = .ok cls) : ∃ decl : ClassDecl, d.exports[idx]? = some (.ofClass decl) ∧
      a.scope.resolveClass idx decl = .ok cls := by
  unfold classAt at hc
  split at hc
  case h_1 found =>
    cases hc
    obtain ⟨-, -, -, exports⟩ := resolve_eq_ok h
    obtain ⟨e, there, resolved⟩ := Scope.exists_resolveExport exports idx _ found
    obtain ⟨decl, rfl, declared⟩ := Scope.exists_of_resolveExport_ofClass resolved
    rw [Nat.zero_add] at declared
    exact ⟨decl, there, declared⟩
  all_goals cases hc

/-- There is a class for each class that is declared. -/
theorem exists_classAt (h : resolve package d = .ok a) {decl : ClassDecl}
    (declared : d.exports[idx]? = some (.ofClass decl)) :
    ∃ cls, a.classAt idx = .ok cls ∧ a.scope.resolveClass idx decl = .ok cls := by
  obtain ⟨-, -, -, exports⟩ := resolve_eq_ok h
  have inside := (List.getElem?_eq_some_iff.1 declared).1
  rw [← Scope.length_resolveExports exports] at inside
  have found := List.getElem?_eq_getElem inside
  obtain ⟨e, there, resolved⟩ := Scope.exists_resolveExport exports idx _ found
  rw [declared] at there
  cases there
  obtain ⟨cls, resolved, same⟩ := bind_eq_ok.1 resolved
  rw [Nat.zero_add] at resolved
  refine ⟨cls, ?_, resolved⟩
  rw [classAt, found, ← Except.ok.inj same]

/-- A class knows its index. -/
theorem exportIdx_of_resolve (h : resolve package d = .ok a) (hc : a.classAt idx = .ok cls) :
    cls.exportIdx = idx := by
  obtain ⟨decl, -, declared⟩ := exists_resolveClass_of_classAt h hc
  exact Scope.exportIdx_resolveClass declared

/-- The index of a class is one of a declaration. -/
theorem lt_of_classAt (h : resolve package d = .ok a) (hc : a.classAt idx = .ok cls) :
    idx < d.exports.length := by
  obtain ⟨decl, there, -⟩ := exists_resolveClass_of_classAt h hc
  exact (List.getElem?_eq_some_iff.1 there).1

/-- All classes of a package belong to it. -/
theorem ref_of_resolve (h : resolve package d = .ok a) (hc : a.classAt idx = .ok cls) :
    cls.ref.package = package := by
  obtain ⟨decl, -, declared⟩ := exists_resolveClass_of_classAt h hc
  rw [Scope.ref_resolveClass declared]
  exact (resolve_eq_ok h).1

/-- The field types of a class are declared. -/
theorem isResolved_fieldTypes (h : resolve package d = .ok a) (hc : a.classAt idx = .ok cls) :
    ∀ t ∈ cls.fieldTypes, t.IsResolved := by
  obtain ⟨decl, -, declared⟩ := exists_resolveClass_of_classAt h hc
  obtain ⟨fields, resolved, placed⟩ := Scope.fields_resolveClass declared
  intro t mem
  obtain ⟨f, hf, rfl⟩ := List.mem_map.1 mem
  have behind : f ∈ (Layout.place Scope.jigHeaderSize fields).1 := by
    rw [placed]
    exact hf
  exact resolved _ (Layout.exists_of_mem_place behind)

end Resolved

end Abi

end JigLedger
