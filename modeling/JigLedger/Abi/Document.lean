/-!
# ABI documents

What a package says about itself: the classes, functions, interfaces and objects that it exports,
and the exports of other packages that it imports. Names are not resolved yet, so a document may
name types that do not exist.
-/

namespace JigLedger.Abi

/-- The name of the method that constructs a class. -/
def constructorName : String := "constructor"

/-- A type as it is written: a name, type arguments, and whether null is allowed. -/
inductive TypeExpr where
  | mk (name : String) (nullable : Bool) (args : List TypeExpr)
deriving Repr

/-- A field or a parameter as it is written. -/
structure FieldDecl where
  name : String
  ty : TypeExpr
deriving Repr

/-- A method, constructor or function as it is written. -/
structure MethodDecl where
  name : String
  args : List FieldDecl
  result : Option TypeExpr
deriving Repr

/-- A class as it is written. -/
structure ClassDecl where
  name : String
  parent : Option String
  implements : List String
  fields : List FieldDecl
  methods : List MethodDecl
deriving Repr

/-- An interface as it is written. -/
structure InterfaceDecl where
  name : String
  parents : List String
  methods : List MethodDecl
deriving Repr

/-- A plain object type as it is written. -/
structure ObjectDecl where
  name : String
  fields : List FieldDecl
deriving Repr

/-- Something that a package exports. -/
inductive ExportDecl where
  | ofClass (decl : ClassDecl)
  | ofFunction (decl : MethodDecl)
  | ofInterface (decl : InterfaceDecl)
  | ofObject (decl : ObjectDecl)
deriving Repr

/-- The name of an export. -/
def ExportDecl.name : ExportDecl → String
  | ofClass d => d.name
  | ofFunction d => d.name
  | ofInterface d => d.name
  | ofObject d => d.name

/-- What can be imported from another package. -/
inductive ImportKind where
  | ofClass
  | ofFunction
  | ofInterface
deriving DecidableEq, Repr

/-- The name of a kind in messages. -/
def ImportKind.name : ImportKind → String
  | ofClass => "Class"
  | ofFunction => "Function"
  | ofInterface => "Interface"

/-- Something that a package imports: an export of the package whose id is written. -/
structure ImportDecl where
  kind : ImportKind
  name : String
  package : String
deriving DecidableEq, Repr

/-- An ABI document. -/
structure Document where
  version : UInt16
  exports : List ExportDecl
  imports : List ImportDecl
deriving Repr

end JigLedger.Abi
