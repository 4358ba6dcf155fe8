import JigLedger.Abi.Document
import JigLedger.Json.Parser
import JigLedger.Json.Printer
import JigLedger.Json.Record

/-!
# ABI documents in JSON

Exports and imports are records with a tag that tells their kind. They are kept as a whole before
they are read, so everything in them has to be sound; members of the document that are not known
are skipped unseen. At most 127 arrays and objects may stand inside each other.
-/

namespace JigLedger.Abi

open Json

/-- How deep arrays and objects may be nested. -/
def depthLimit : Nat := 127

/-! ### Reading -/

/-- The tag of a tagged record, and the record without it. -/
def tagged? : Json → Option (String × Json)
  | .object members => do
    let some tag ← member? members "kind" | none
    return (← text? tag, .object (members.filter fun m => m.1 ≠ some "kind"))
  | .array (tag :: items) => do return (← text? tag, .array items)
  | _ => none

/-- A list of fields that may be missing. -/
def listField? {α : Type} (read : Json → Option α) : Option Json → Option (List α) :=
  orDefault [] (items? read)

/-- A type; `depth` bounds the nesting of type arguments. -/
def typeExpr? : (depth : Nat) → Json → Option TypeExpr
  | 0, _ => none
  | depth + 1, j => do
    match ← fields? ["name", "nullable", "args"] j with
    | [name, nullable, args] =>
      return .mk (← text? (← name)) (← orDefault false bool? nullable)
        (← listField? (typeExpr? depth) args)
    | _ => none

/-- A field or a parameter. -/
def fieldDecl? (j : Json) : Option FieldDecl := do
  match ← fields? ["name", "type"] j with
  | [name, ty] => return ⟨← text? (← name), ← typeExpr? depthLimit (← ty)⟩
  | _ => none

/-- A method, constructor or function. -/
def methodDecl? (j : Json) : Option MethodDecl := do
  match ← fields? ["name", "args", "rtype"] j with
  | [name, args, result] =>
    return ⟨← text? (← name), ← listField? fieldDecl? args,
      ← orDefault none (nullable? (typeExpr? depthLimit)) result⟩
  | _ => none

/-- A class. -/
def classDecl? (j : Json) : Option ClassDecl := do
  match ← fields? ["name", "extends", "implements", "fields", "methods"] j with
  | [name, parent, implements, fields, methods] =>
    return ⟨← text? (← name), ← orDefault none (nullable? text?) parent,
      ← listField? text? implements, ← listField? fieldDecl? fields,
      ← listField? methodDecl? methods⟩
  | _ => none

/-- An interface. -/
def interfaceDecl? (j : Json) : Option InterfaceDecl := do
  match ← fields? ["name", "extends", "methods"] j with
  | [name, parents, methods] =>
    return ⟨← text? (← name), ← listField? text? parents, ← listField? methodDecl? methods⟩
  | _ => none

/-- An object type. -/
def objectDecl? (j : Json) : Option ObjectDecl := do
  match ← fields? ["name", "fields"] j with
  | [name, fields] => return ⟨← text? (← name), ← listField? fieldDecl? fields⟩
  | _ => none

/-- An export, two levels inside the document. -/
def exportDecl? (j : Json) : Option ExportDecl := do
  guard (j.isSound (depthLimit - 2))
  let (kind, body) ← tagged? j
  match kind with
  | "class" => return .ofClass (← classDecl? body)
  | "function" => return .ofFunction (← methodDecl? body)
  | "interface" => return .ofInterface (← interfaceDecl? body)
  | "object" => return .ofObject (← objectDecl? body)
  | _ => none

/-- The kind of import with a given tag. -/
def importKind? : String → Option ImportKind
  | "class" => some .ofClass
  | "function" => some .ofFunction
  | "interface" => some .ofInterface
  | _ => none

/-- An import, two levels inside the document. -/
def importDecl? (j : Json) : Option ImportDecl := do
  guard (j.isSound (depthLimit - 2))
  let (kind, body) ← tagged? j
  let kind ← importKind? kind
  match ← fields? ["name", "pkg"] body with
  | [name, package] => return ⟨kind, ← text? (← name), ← text? (← package)⟩
  | _ => none

/-- A document. -/
def Document.ofJson? (j : Json) : Option Document := do
  match ← fields? ["version", "exports", "imports"] j with
  | [version, exports, imports] =>
    return ⟨UInt16.ofNat (← natBelow? UInt16.size (← version)), ← listField? exportDecl? exports,
      ← listField? importDecl? imports⟩
  | _ => none

/-- The document that a JSON text gives. -/
def Document.parse? (s : String) : Option Document := Json.parse s >>= Document.ofJson?

/-- The message for a text that gives no document. -/
def Document.parseMessage : String := "parse abi json"

/-! ### Writing -/

mutual

/-- A type in JSON. -/
def TypeExpr.toJson : TypeExpr → Json
  | .mk name nullable args =>
    .object [(some "name", .text name), (some "nullable", .bool nullable),
      (some "args", .array (typeArgs args))]

/-- Type arguments in JSON. -/
def typeArgs : List TypeExpr → List Json
  | [] => []
  | t :: rest => t.toJson :: typeArgs rest

end

/-- A field in JSON. -/
def FieldDecl.toJson (f : FieldDecl) : Json :=
  .ofMembers [("name", .text f.name), ("type", f.ty.toJson)]

/-- The members of a method. -/
def MethodDecl.members (m : MethodDecl) : List (String × Json) :=
  [("name", .text m.name), ("args", .array (m.args.map FieldDecl.toJson)),
    ("rtype", match m.result with
      | none => .null
      | some t => t.toJson)]

/-- A method in JSON. -/
def MethodDecl.toJson (m : MethodDecl) : Json := .ofMembers m.members

/-- An export in JSON. -/
def ExportDecl.toJson : ExportDecl → Json
  | ofClass d => .ofMembers [("kind", .text "class"), ("name", .text d.name),
      ("extends", match d.parent with
        | none => .null
        | some parent => .text parent),
      ("implements", .array (d.implements.map .text)),
      ("fields", .array (d.fields.map FieldDecl.toJson)),
      ("methods", .array (d.methods.map MethodDecl.toJson))]
  | ofFunction d => .ofMembers (("kind", .text "function") :: d.members)
  | ofInterface d => .ofMembers [("kind", .text "interface"), ("name", .text d.name),
      ("extends", .array (d.parents.map .text)),
      ("methods", .array (d.methods.map MethodDecl.toJson))]
  | ofObject d => .ofMembers [("kind", .text "object"), ("name", .text d.name),
      ("fields", .array (d.fields.map FieldDecl.toJson))]

/-- The tag of a kind of import. -/
def ImportKind.tag : ImportKind → String
  | ofClass => "class"
  | ofFunction => "function"
  | ofInterface => "interface"

/-- An import in JSON. -/
def ImportDecl.toJson (d : ImportDecl) : Json :=
  .ofMembers [("kind", .text d.kind.tag), ("name", .text d.name), ("pkg", .text d.package)]

/-- A document in JSON. -/
def Document.toJson (d : Document) : Json :=
  .ofMembers [("version", .nat d.version.toNat),
    ("exports", .array (d.exports.map ExportDecl.toJson)),
    ("imports", .array (d.imports.map ImportDecl.toJson))]

/-- The JSON text of a document. -/
def Document.render (d : Document) : String := d.toJson.render

end JigLedger.Abi
