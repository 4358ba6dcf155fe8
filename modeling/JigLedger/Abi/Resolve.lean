import JigLedger.Abi.Document
import JigLedger.Abi.Type
import Std.Data.ExtTreeSet

/-!
# Resolved ABIs

Resolving a document looks every name up once. Afterwards classes, functions and imports are
addressed by index, and all types are self-contained. A class has the fields of its ancestors
before its own, and the methods of its ancestors in their places, replaced where it overrides them.
-/

namespace JigLedger

/-- Why a document does not resolve, or an index names nothing of the right kind. -/
inductive AbiError where
  | duplicateExport (name : String)
  | exportedAndImported (name : String)
  | duplicateImport (name : String)
  | packageId (error : IdentifierError)
  | floatingPoint (name : String)
  | arity (name : String) (expected actual : Nat)
  | mapKey (ty : Ty)
  | functionAsType (name : String)
  | unknownType (name : String)
  | recursiveObject (name : String)
  | notClass (name : String)
  | inheritanceCycle (name : String)
  | unknownParent (name parent : String)
  | notInterface (name : String)
  | redeclaredField (name field : String)
  | exportNotClass (package : PackageId) (idx : Nat)
  | exportNotFunction (package : PackageId) (idx : Nat)
  | noExport (package : PackageId) (idx : Nat)
  | noImport (package : PackageId) (idx : Nat)
deriving Repr

/-- The wording of an ABI error. -/
def AbiError.message : AbiError → String
  | duplicateExport name => s!"duplicate export {name}"
  | exportedAndImported name => s!"{name} is both exported and imported"
  | duplicateImport name => s!"duplicate import {name}"
  | packageId e => e.message
  | floatingPoint name => s!"floating point type {name} is not supported"
  | arity name expected actual => s!"type {name} takes {expected} type arguments, got {actual}"
  | mapKey t => s!"map keys must be integers, bools or strings, got {t.toText}"
  | functionAsType name => s!"function {name} used as a type"
  | unknownType name => s!"unknown type {name}"
  | recursiveObject name => s!"recursive object type {name}"
  | notClass name => s!"{name} is not a class"
  | inheritanceCycle name => s!"inheritance cycle through {name}"
  | unknownParent name parent =>
    s!"class {name} extends {parent}, which is not a class of this package"
  | notInterface name => s!"{name} is not an interface"
  | redeclaredField name field => s!"class {name} redeclares field {field}"
  | exportNotClass package idx => s!"export {idx} of package {package.short} is not a class"
  | exportNotFunction package idx => s!"export {idx} of package {package.short} is not a function"
  | noExport package idx => s!"package {package.short} has no export {idx}"
  | noImport package idx => s!"package {package.short} has no import {idx}"

namespace Abi

/-- A set of classes and interfaces. -/
abbrev RefSet := Std.ExtTreeSet ClassRef compare

/-- A constructor, method or function. -/
structure Callable where
  name : String
  /-- The guest export that implements it. -/
  exportName : String
  /-- The parameters, laid out as in an argument blob. -/
  params : List Field
  result : Option Ty
deriving Repr

/-- A class. -/
structure Class where
  exportIdx : Nat
  ref : ClassRef
  parent : Option String
  /-- Inherited fields, then own fields; the first four bytes of a jig are its header. -/
  fields : List Field
  size : UInt32
  constructor : Callable
  /-- Inherited methods, then own methods; a method that overrides another takes its place. -/
  methods : List Callable
  /-- The classes and interfaces that jigs of this class are instances of. -/
  conformance : RefSet

namespace Class

/-- The name of a class. -/
def name (c : Class) : String := c.ref.name

/-- The method with an index. -/
def method? (c : Class) (idx : Nat) : Option Callable := c.methods[idx]?

/-- The index of the method with a name. -/
def methodIndex? (c : Class) (name : String) : Option Nat :=
  c.methods.findIdx? (·.name = name)

/-- The field with a name. -/
def field? (c : Class) (name : String) : Option Field := c.fields.find? (·.name = name)

/-- The types of the fields. -/
def fieldTypes (c : Class) : List Ty := c.fields.map (·.ty)

/-- Jigs of this class go into slots with a demand. -/
def conformsTo (c : Class) : JigTy → Bool
  | .any => true
  | .ofClass ref | .ofInterface ref => c.conformance.contains ref

end Class

/-- An interface. -/
structure Interface where
  ref : ClassRef
  parents : List ClassRef
  methods : List String
deriving DecidableEq, Repr

/-- Something that a package exports. -/
inductive Export where
  | ofClass (c : Class)
  | ofFunction (f : Callable)
  | ofInterface (i : Interface)
  | object

/-- Something that a package imports. -/
structure Import where
  kind : ImportKind
  name : String
  package : PackageId
deriving DecidableEq, Repr

end Abi

/-- The resolved ABI of a package. -/
structure Abi where
  package : PackageId
  document : Abi.Document
  /-- The exports in the order of the document. -/
  exports : List Abi.Export
  imports : List Abi.Import

namespace Abi

/-! ### Look-up -/

/-- The index of the export with a name. -/
def exportIndex? (a : Abi) (name : String) : Option Nat :=
  a.document.exports.findIdx? (·.name = name)

/-- The class with an export index. -/
def classAt (a : Abi) (idx : Nat) : Except AbiError Class :=
  match a.exports[idx]? with
  | some (.ofClass c) => .ok c
  | some _ => .error (.exportNotClass a.package idx)
  | none => .error (.noExport a.package idx)

/-- The function with an export index. -/
def functionAt (a : Abi) (idx : Nat) : Except AbiError Callable :=
  match a.exports[idx]? with
  | some (.ofFunction f) => .ok f
  | some _ => .error (.exportNotFunction a.package idx)
  | none => .error (.noExport a.package idx)

/-- The import with an index. -/
def importAt (a : Abi) (idx : Nat) : Except AbiError Import :=
  match a.imports[idx]? with
  | some i => .ok i
  | none => .error (.noImport a.package idx)

/-- The kind of an export, with its index among those of its kind. -/
inductive ExportKind where
  | ofClass (idx : Nat)
  | ofFunction (idx : Nat)
  | ofInterface (idx : Nat)
  | object
deriving DecidableEq, Repr

/-- The kinds of exports; the numbers of classes, functions and interfaces before them are given. -/
def kindsFrom (classes functions interfaces : Nat) : List Export → List ExportKind
  | [] => []
  | .ofClass _ :: rest => .ofClass classes :: kindsFrom (classes + 1) functions interfaces rest
  | .ofFunction _ :: rest =>
    .ofFunction functions :: kindsFrom classes (functions + 1) interfaces rest
  | .ofInterface _ :: rest =>
    .ofInterface interfaces :: kindsFrom classes functions (interfaces + 1) rest
  | .object :: rest => .object :: kindsFrom classes functions interfaces rest

/-- The kinds of the exports. -/
def kinds (a : Abi) : List ExportKind := kindsFrom 0 0 0 a.exports

/-- The classes in the order of the document. -/
def classes (a : Abi) : List Class :=
  a.exports.filterMap fun
    | .ofClass c => some c
    | _ => none

/-- The functions in the order of the document. -/
def functions (a : Abi) : List Callable :=
  a.exports.filterMap fun
    | .ofFunction f => some f
    | _ => none

/-- The class with a name. -/
def classNamed? (a : Abi) (name : String) : Option Class :=
  (a.exportIndex? name).bind fun idx => (a.classAt idx).toOption

/-- The function with a name. -/
def functionNamed? (a : Abi) (name : String) : Option Callable :=
  (a.exportIndex? name).bind fun idx => (a.functionAt idx).toOption

/-- The interface with a name. -/
def interfaceNamed? (a : Abi) (name : String) : Option Interface := do
  match a.exports[← a.exportIndex? name]? with
  | some (.ofInterface i) => some i
  | _ => none

/-- The name belongs to something in another package. -/
def isImported (a : Abi) (name : String) : Bool := a.imports.any (·.name = name)

/-! ### Resolution -/

/-- The names that a document can refer to: its exports, and its imports with their packages. -/
structure Scope where
  package : PackageId
  exports : List ExportDecl
  imports : List Import

namespace Scope

/-- The export with a name. -/
def export? (s : Scope) (name : String) : Option ExportDecl := s.exports.find? (·.name = name)

/-- The import with a name. -/
def import? (s : Scope) (name : String) : Option Import := s.imports.find? (·.name = name)

/-- Fails at the first name that is exported twice. -/
def checkExports (seen : List String) : List ExportDecl → Except AbiError Unit
  | [] => .ok ()
  | d :: rest =>
    if d.name ∈ seen then .error (.duplicateExport d.name)
    else checkExports (d.name :: seen) rest

/-- The imports with their packages; each name has to be new. -/
def resolveImports (exports : List String) (seen : List String) :
    List ImportDecl → Except AbiError (List Import)
  | [] => .ok []
  | d :: rest =>
    if d.name ∈ exports then .error (.exportedAndImported d.name)
    else if d.name ∈ seen then .error (.duplicateImport d.name)
    else do
      let package ← (PackageId.parse d.package).mapError .packageId
      let imports ← resolveImports exports (d.name :: seen) rest
      return ⟨d.kind, d.name, package⟩ :: imports

/-- The scope of a document. -/
def ofDocument (package : PackageId) (d : Document) : Except AbiError Scope := do
  checkExports [] d.exports
  let imports ← resolveImports (d.exports.map (·.name)) [] d.imports
  return ⟨package, d.exports, imports⟩

/-- The types that are written by a name alone and mean the same everywhere. -/
def primitive? : String → Option Ty
  | "bool" => some .bool
  | "u8" => some .u8
  | "u16" => some .u16
  | "u32" => some .u32
  | "u64" => some .u64
  | "i8" => some .i8
  | "i16" => some .i16
  | "i32" => some .i32
  | "i64" => some .i64
  | "string" => some .string
  | "bytes" => some .bytes
  | _ => none

/-- Types that can be the key of a map. -/
def isKey (t : Ty) : Bool :=
  t.isScalar || match t with
    | .string => true
    | _ => false

/-- Fails unless a type has the right number of type arguments. -/
def checkArity (name : String) (expected actual : Nat) : Except AbiError Unit :=
  if actual = expected then .ok () else .error (.arity name expected actual)

/-- The type with the name of an export or an import. `object` resolves object types. -/
def namedType (s : Scope) (object : ObjectDecl → Except AbiError Ty) (name : String) :
    Except AbiError Ty :=
  match s.export? name with
  | some (.ofClass _) => .ok (.jig (.ofClass ⟨s.package, name⟩))
  | some (.ofInterface _) => .ok (.jig (.ofInterface ⟨s.package, name⟩))
  | some (.ofObject d) => object d
  | some (.ofFunction _) => .error (.functionAsType name)
  | none =>
    match s.import? name with
    | some ⟨.ofClass, name, package⟩ => .ok (.jig (.ofClass ⟨package, name⟩))
    | some ⟨.ofInterface, name, package⟩ => .ok (.jig (.ofInterface ⟨package, name⟩))
    | some ⟨.ofFunction, _, _⟩ => .error (.functionAsType name)
    | none => .error (.unknownType name)

mutual

/-- The type that is written. `object` resolves object types. -/
def typeWith (s : Scope) (object : ObjectDecl → Except AbiError Ty) :
    TypeExpr → Except AbiError Ty
  | .mk name nullable args => do
    let inner ← baseWith s object name args
    return if nullable then .nullable inner else inner

/-- The type with a name and type arguments. -/
def baseWith (s : Scope) (object : ObjectDecl → Except AbiError Ty) (name : String)
    (args : List TypeExpr) : Except AbiError Ty :=
  match primitive? name with
  | some t => do
    checkArity name 0 args.length
    return t
  | none =>
    if name = "f32" || name = "f64" then .error (.floatingPoint name)
    else if name = "Array" then do
      checkArity name 1 args.length
      match ← typesWith s object args with
      | [t] => return .array t
      | _ => .error (.arity name 1 args.length)
    else if name = "Map" then do
      checkArity name 2 args.length
      match args with
      | [k, v] => do
        let key ← typeWith s object k
        if isKey key then do
          let value ← typeWith s object v
          return .map key value
        else .error (.mapKey key)
      | _ => .error (.arity name 2 args.length)
    else if name = "Jig" then do
      checkArity name 0 args.length
      return .jig .any
    else do
      checkArity name 0 args.length
      s.namedType object name

/-- The types that are written, in their order. -/
def typesWith (s : Scope) (object : ObjectDecl → Except AbiError Ty) :
    List TypeExpr → Except AbiError (List Ty)
  | [] => .ok []
  | t :: rest => do
    let ty ← typeWith s object t
    let types ← typesWith s object rest
    return ty :: types

end

/-- Fields with the types that are written. -/
def fieldsWith (s : Scope) (object : ObjectDecl → Except AbiError Ty) (fields : List FieldDecl) :
    Except AbiError (List (String × Ty)) :=
  fields.mapM fun f => do return (f.name, ← s.typeWith object f.ty)

/-- The type of an object, inside the objects `visiting`. Objects inside each other have different
names, so there are at most `room` more of them. -/
def objectType (s : Scope) : (room : Nat) → (visiting : List String) → ObjectDecl →
    Except AbiError Ty
  | 0, _, d => .error (.recursiveObject d.name)
  | room + 1, visiting, d =>
    if d.name ∈ visiting then .error (.recursiveObject d.name)
    else do
      let fields ← s.fieldsWith (objectType s room (d.name :: visiting)) d.fields
      return .objectOf d.name fields

/-- The type of an object that stands by itself. -/
def object (s : Scope) (d : ObjectDecl) : Except AbiError Ty :=
  s.objectType (s.exports.length + 1) [] d

/-- The type that is written. -/
def type (s : Scope) (t : TypeExpr) : Except AbiError Ty := s.typeWith s.object t

/-- A constructor, method or function that is implemented by a guest export. -/
def callable (s : Scope) (d : MethodDecl) (exportName : String) : Except AbiError Callable := do
  let params ← s.fieldsWith s.object d.args
  let result ← d.result.mapM s.type
  return ⟨d.name, exportName, (Layout.place 0 params).1, result⟩

/-- The ancestors of an export, the nearest first, and the export itself before them; `below` are
the classes derived from it that have been seen. -/
def ancestry (s : Scope) : (room : Nat) → (below : List String) → ExportDecl →
    Except AbiError (List ClassDecl)
  | room, below, .ofClass d =>
    if d.name ∈ below then .error (.inheritanceCycle d.name)
    else
      match d.parent with
      | none => .ok [d]
      | some parent =>
        match room, s.export? parent with
        | _, none => .error (.unknownParent d.name parent)
        | 0, some _ => .error (.inheritanceCycle d.name)
        | room + 1, some next => do
          let rest ← ancestry s room (d.name :: below) next
          return d :: rest
  | _, _, other => .error (.notClass other.name)

/-- A class and its ancestors, the root first. -/
def lineage (s : Scope) (d : ClassDecl) : Except AbiError (List ClassDecl) := do
  return (← s.ancestry s.exports.length [] (.ofClass d)).reverse

/-- The interface with a name, of this package or imported. -/
def interfaceRef (s : Scope) (name : String) : Except AbiError ClassRef :=
  match s.export? name, s.import? name with
  | some (.ofInterface _), _ => .ok ⟨s.package, name⟩
  | _, some ⟨.ofInterface, name, package⟩ => .ok ⟨package, name⟩
  | _, _ => .error (.notInterface name)

/-- The interfaces that an interface of this package extends; none for others. -/
def parentsOf (s : Scope) (name : String) : List String :=
  match s.export? name with
  | some (.ofInterface d) => d.parents
  | _ => []

/-- The set with the interfaces `pending` and all that interfaces of this package extend.
`unexpanded` are the names of exports whose parents have not been looked at. -/
def closeOver (s : Scope) (unexpanded pending : List String) (found : RefSet) :
    Except AbiError RefSet :=
  match pending with
  | [] => .ok found
  | name :: rest => do
    let ref ← s.interfaceRef name
    if found.contains ref then closeOver s unexpanded rest found
    else if name ∈ unexpanded then
      closeOver s (unexpanded.erase name) (s.parentsOf name ++ rest) (found.insert ref)
    else closeOver s unexpanded rest (found.insert ref)
termination_by (unexpanded.length, pending.length)
decreasing_by
  · exact Prod.Lex.right _ (by simp)
  · rename_i h
    apply Prod.Lex.left
    rw [List.length_erase_of_mem h]
    exact Nat.sub_lt (List.length_pos_of_mem h) Nat.zero_lt_one
  · exact Prod.Lex.right _ (by simp)

/-- The set with a class and the interfaces that it implements. -/
def addClass (s : Scope) (found : RefSet) (d : ClassDecl) : Except AbiError RefSet :=
  d.implements.foldlM (fun found name => s.closeOver (s.exports.map (·.name)) [name] found)
    (found.insert ⟨s.package, d.name⟩)

/-- The fields of a lineage; no name may occur twice. `name` is that of the class derived last. -/
def lineageFields (s : Scope) (name : String) :
    (seen : List String) → List FieldDecl → Except AbiError (List (String × Ty))
  | _, [] => .ok []
  | seen, f :: rest =>
    if f.name ∈ seen then .error (.redeclaredField name f.name)
    else do
      let ty ← s.type f.ty
      let fields ← lineageFields s name (f.name :: seen) rest
      return (f.name, ty) :: fields

/-- The table with a method at the place of the one with its name, or at the end. -/
def putMethod (m : Callable) : List Callable → List Callable
  | [] => [m]
  | other :: rest => if other.name = m.name then m :: rest else other :: putMethod m rest

/-- The table with the methods that a class declares. -/
def addMethods (s : Scope) (table : List Callable) (d : ClassDecl) :
    Except AbiError (List Callable) :=
  (d.methods.filter (·.name ≠ constructorName)).foldlM
    (fun table m => do return putMethod (← s.callable m s!"{d.name}${m.name}") table) table

/-- The constructor of a lineage: the one that was declared last, or one without parameters. -/
def lineageConstructor (lineage : List ClassDecl) : MethodDecl :=
  let declared := (lineage.flatMap (·.methods)).filter (·.name = constructorName)
  declared.getLast?.getD ⟨constructorName, [], none⟩

/-- The bytes at the start of a jig that lead to its origin. -/
def jigHeaderSize : UInt32 := 4

/-- The class that a declaration describes. -/
def resolveClass (s : Scope) (exportIdx : Nat) (d : ClassDecl) : Except AbiError Class := do
  let lineage ← s.lineage d
  let rawFields ← s.lineageFields d.name [] (lineage.flatMap (·.fields))
  let (fields, size) := Layout.place jigHeaderSize rawFields
  let methods ← lineage.foldlM s.addMethods []
  let constructor ← s.callable (lineageConstructor lineage) s!"{d.name}_constructor"
  let conformance ← lineage.foldlM s.addClass ∅
  return {
    exportIdx, ref := ⟨s.package, d.name⟩, parent := d.parent, fields, size,
    constructor := { constructor with result := none }, methods, conformance }

/-- The export that a declaration describes. -/
def resolveExport (s : Scope) (exportIdx : Nat) : ExportDecl → Except AbiError Export
  | .ofClass d => do return .ofClass (← s.resolveClass exportIdx d)
  | .ofFunction d => do return .ofFunction (← s.callable d d.name)
  | .ofInterface d => do
    let parents ← d.parents.mapM s.interfaceRef
    return .ofInterface ⟨⟨s.package, d.name⟩, parents, d.methods.map (·.name)⟩
  | .ofObject d => do
    let _ ← s.object d
    return .object

/-- The exports from an index on. -/
def resolveExports (s : Scope) : (exportIdx : Nat) → List ExportDecl → Except AbiError (List Export)
  | _, [] => .ok []
  | idx, d :: rest => do
    let e ← s.resolveExport idx d
    let es ← resolveExports s (idx + 1) rest
    return e :: es

end Scope

/-- The ABI of a package that a document describes. -/
def resolve (package : PackageId) (d : Document) : Except AbiError Abi := do
  let scope ← Scope.ofDocument package d
  let exports ← scope.resolveExports 0 d.exports
  return ⟨package, d, exports, scope.imports⟩

end Abi

end JigLedger
