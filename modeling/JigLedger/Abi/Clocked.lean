import JigLedger.Abi.Resolve

/-!
# Resolution against the clock

`Abi.resolve` counts down how many objects can still be inside each other and how many ancestors can
still follow, and it keeps a list of the interfaces whose parents have not been looked at. Here the
same searches go on for as long as they take. Nothing stops them but the names on the way: an object
that is inside itself, a class that is derived from itself, an interface that has been found. Each
call goes by a clock that counts down, and a search whose clock has run out has no result at all, so
as far as these definitions go, there may be searches that no clock is enough for.
-/

namespace JigLedger.Abi.Clocked

/-- A search that may fail. It is `none` if the clock ran out. -/
abbrev Search (α : Type) := ExceptT AbiError Option α

/-- The search that has ended. -/
def ended {α : Type} (result : Except AbiError α) : Search α := ExceptT.mk (some result)

/-- The search that has not ended when the clock runs out. -/
def late {α : Type} : Search α := ExceptT.mk none

/-! ### Types -/

mutual

/-- The type that is written, inside the objects `visiting`. -/
def type (s : Scope) : (clock : Nat) → (visiting : List String) → TypeExpr → Search Ty
  | 0, _, _ => late
  | clock + 1, visiting, .mk name nullable args => do
    let inner ← base s clock visiting name args
    return if nullable then .nullable inner else inner

/-- The type with a name and type arguments. -/
def base (s : Scope) : (clock : Nat) → (visiting : List String) → (name : String) →
    (args : List TypeExpr) → Search Ty
  | 0, _, _, _ => late
  | clock + 1, visiting, name, args =>
    match Scope.primitive? name with
    | some t => do
      ended (Scope.checkArity name 0 args.length)
      return t
    | none =>
      if name = "f32" || name = "f64" then throw (.floatingPoint name)
      else if name = "Array" then
        match args with
        | [item] => do return .array (← type s clock visiting item)
        | _ => throw (.arity name 1 args.length)
      else if name = "Map" then
        match args with
        | [k, v] => do
          let key ← type s clock visiting k
          if Scope.isKey key then do
            let value ← type s clock visiting v
            return .map key value
          else throw (.mapKey key)
        | _ => throw (.arity name 2 args.length)
      else if name = "Jig" then do
        ended (Scope.checkArity name 0 args.length)
        return .jig .any
      else do
        ended (Scope.checkArity name 0 args.length)
        named s clock visiting name

/-- The type with the name of an export or an import. -/
def named (s : Scope) : (clock : Nat) → (visiting : List String) → (name : String) → Search Ty
  | 0, _, _ => late
  | clock + 1, visiting, name =>
    match s.export? name with
    | some (.ofClass _) => return .jig (.ofClass ⟨s.package, name⟩)
    | some (.ofInterface _) => return .jig (.ofInterface ⟨s.package, name⟩)
    | some (.ofObject d) => object s clock visiting d
    | some (.ofFunction _) => throw (.functionAsType name)
    | none =>
      match s.import? name with
      | some ⟨.ofClass, name, package⟩ => return .jig (.ofClass ⟨package, name⟩)
      | some ⟨.ofInterface, name, package⟩ => return .jig (.ofInterface ⟨package, name⟩)
      | some ⟨.ofFunction, _, _⟩ => throw (.functionAsType name)
      | none => throw (.unknownType name)

/-- The type of an object, inside the objects `visiting`. -/
def object (s : Scope) : (clock : Nat) → (visiting : List String) → ObjectDecl → Search Ty
  | 0, _, _ => late
  | clock + 1, visiting, d =>
    if d.name ∈ visiting then throw (.recursiveObject d.name)
    else do
      let fields ← d.fields.mapM fun f => do
        return (f.name, ← type s clock (d.name :: visiting) f.ty)
      return .objectOf d.name fields

end

/-- Fields with the types that are written. -/
def fields (s : Scope) (clock : Nat) (decls : List FieldDecl) : Search (List (String × Ty)) :=
  decls.mapM fun f => do return (f.name, ← type s clock [] f.ty)

/-- A constructor, method or function that is implemented by a guest export. -/
def callable (s : Scope) (clock : Nat) (d : MethodDecl) (exportName : String) :
    Search Callable := do
  let params ← fields s clock d.args
  let result ← d.result.mapM (type s clock [])
  return ⟨d.name, exportName, (Layout.place 0 params).1, result⟩

/-! ### Ancestors and interfaces -/

/-- The ancestors of an export, the nearest first, and the export itself before them; `below` are
the classes derived from it. -/
def ancestry (s : Scope) : (clock : Nat) → (below : List String) → ExportDecl →
    Search (List ClassDecl)
  | 0, _, _ => late
  | clock + 1, below, .ofClass d =>
    if d.name ∈ below then throw (.inheritanceCycle d.name)
    else
      match d.parent with
      | none => return [d]
      | some parent =>
        match s.export? parent with
        | none => throw (.unknownParent d.name parent)
        | some next => do
          let rest ← ancestry s clock (d.name :: below) next
          return d :: rest
  | _ + 1, _, other => throw (.notClass other.name)

/-- The set with an interface and all that interfaces of this package extend. -/
def close (s : Scope) : (clock : Nat) → (found : RefSet) → (name : String) → Search RefSet
  | 0, _, _ => late
  | clock + 1, found, name => do
    let ref ← ended (s.interfaceRef name)
    if found.contains ref then return found
    else (s.parentsOf name).foldlM (close s clock) (found.insert ref)

/-! ### Documents -/

/-- The set with a class and the interfaces that it implements. -/
def addClass (s : Scope) (clock : Nat) (found : RefSet) (d : ClassDecl) : Search RefSet :=
  d.implements.foldlM (close s clock) (found.insert ⟨s.package, d.name⟩)

/-- The fields of a lineage; no name may occur twice. -/
def lineageFields (s : Scope) (clock : Nat) (name : String) :
    (seen : List String) → List FieldDecl → Search (List (String × Ty))
  | _, [] => return []
  | seen, f :: rest =>
    if f.name ∈ seen then throw (.redeclaredField name f.name)
    else do
      let ty ← type s clock [] f.ty
      let fields ← lineageFields s clock name (f.name :: seen) rest
      return (f.name, ty) :: fields

/-- The table with the methods that a class declares. -/
def addMethods (s : Scope) (clock : Nat) (table : List Callable) (d : ClassDecl) :
    Search (List Callable) :=
  (d.methods.filter (·.name ≠ constructorName)).foldlM
    (fun table m => do
      return Scope.putMethod (← callable s clock m s!"{d.name}${m.name}") table) table

/-- The class that a declaration describes. -/
def resolveClass (s : Scope) (clock exportIdx : Nat) (d : ClassDecl) : Search Class := do
  let lineage := (← ancestry s clock [] (.ofClass d)).reverse
  let rawFields ← lineageFields s clock d.name [] (lineage.flatMap (·.fields))
  let (fields, size) := Layout.place Scope.jigHeaderSize rawFields
  let methods ← lineage.foldlM (addMethods s clock) []
  let constructor ← callable s clock (Scope.lineageConstructor lineage) s!"{d.name}_constructor"
  let conformance ← lineage.foldlM (addClass s clock) ∅
  return {
    exportIdx, ref := ⟨s.package, d.name⟩, parent := d.parent, fields, size,
    constructor := { constructor with result := none }, methods, conformance }

/-- The export that a declaration describes. -/
def resolveExport (s : Scope) (clock exportIdx : Nat) : ExportDecl → Search Export
  | .ofClass d => do return .ofClass (← resolveClass s clock exportIdx d)
  | .ofFunction d => do return .ofFunction (← callable s clock d d.name)
  | .ofInterface d => do
    let parents ← ended (d.parents.mapM s.interfaceRef)
    return .ofInterface ⟨⟨s.package, d.name⟩, parents, d.methods.map (·.name)⟩
  | .ofObject d => do
    let _ ← object s clock [] d
    return .object

/-- The exports from an index on. -/
def resolveExports (s : Scope) (clock : Nat) :
    (exportIdx : Nat) → List ExportDecl → Search (List Export)
  | _, [] => return []
  | idx, d :: rest => do
    let e ← resolveExport s clock idx d
    let es ← resolveExports s clock (idx + 1) rest
    return e :: es

/-- The ABI of a package that a document describes. -/
def resolve (clock : Nat) (package : PackageId) (d : Document) : Search Abi := do
  let scope ← ended (Scope.ofDocument package d)
  let exports ← resolveExports scope clock 0 d.exports
  return ⟨package, d, exports, scope.imports⟩

end JigLedger.Abi.Clocked
