import JigLedger.Abi.Json
import JigLedger.Proofs.Json.Record
import Mathlib

/-!
# ABI documents are read back

A document whose JSON value is not nested too deeply is read from its text again. What is read from
any text is such a document: a type stands an even number of arrays and objects deep, so there is
room for its list of type arguments, which the text may have left out.
-/

namespace JigLedger.Abi

open Json

/-! ### What is written -/

section Written

variable {allowed : Number → Prop}

mutual

theorem TypeExpr.consists (t : TypeExpr) : t.toJson.Consists allowed := by
  cases t with
  | mk name nullable args =>
    have each : ∀ j ∈ typeArgs args, j.Consists allowed := typeArgs_consist args
    have members : ∀ m ∈ [("name", text name), ("nullable", Json.bool nullable),
        ("args", array (typeArgs args))], m.2.Consists allowed := by
      simp only [List.forall_mem_cons]
      exact ⟨.text _, .bool _, .array each, nofun⟩
    exact .object members

theorem typeArgs_consist : ∀ args : List TypeExpr, ∀ j ∈ typeArgs args, j.Consists allowed
  | [] => nofun
  | t :: args => List.forall_mem_cons.2 ⟨t.consists, typeArgs_consist args⟩

end

theorem FieldDecl.consists (f : FieldDecl) : f.toJson.Consists allowed :=
  .object (List.forall_mem_cons.2 ⟨.text _, List.forall_mem_singleton.2 f.ty.consists⟩)

theorem MethodDecl.members_consist (m : MethodDecl) :
    ∀ member ∈ m.members, member.2.Consists allowed := by
  simp only [members, List.forall_mem_cons]
  refine ⟨.text _, .list fun f _ => f.consists, ?_, nofun⟩
  cases m.result with
  | none => exact .null
  | some t => exact t.consists

theorem MethodDecl.consists (m : MethodDecl) : m.toJson.Consists allowed :=
  .object m.members_consist

/-- An export has no numbers in it. -/
theorem ExportDecl.consists (e : ExportDecl) : e.toJson.Consists allowed := by
  rcases e with d | d | d | d <;> refine .object ?_ <;> simp only [List.forall_mem_cons]
  case ofClass =>
    refine ⟨.text _, .text _, ?_, .list fun s _ => .text s, .list fun f _ => f.consists,
      .list fun m _ => m.consists, nofun⟩
    cases d.parent with
    | none => exact .null
    | some parent => exact .text parent
  case ofFunction => exact ⟨.text _, d.members_consist⟩
  case ofInterface =>
    exact ⟨.text _, .text _, .list fun s _ => .text s, .list fun m _ => m.consists, nofun⟩
  case ofObject => exact ⟨.text _, .text _, .list fun f _ => f.consists, nofun⟩

theorem ImportDecl.consists (d : ImportDecl) : d.toJson.Consists allowed := by
  refine .object ?_
  simp only [List.forall_mem_cons]
  exact ⟨.text _, .text _, .text _, nofun⟩

theorem Document.consists (d : Document) (version : allowed ⟨false, d.version.toNat, none, none⟩) :
    d.toJson.Consists allowed := by
  refine .object ?_
  simp only [List.forall_mem_cons]
  exact ⟨.number version, .list fun e _ => e.consists, .list fun i _ => i.consists, nofun⟩

end Written

/-! ### What is written is read -/

theorem typeArgs_eq_map (args : List TypeExpr) : typeArgs args = args.map TypeExpr.toJson := by
  induction args with
  | nil => rfl
  | cons t args ih => rw [typeArgs, ih, List.map_cons]

theorem TypeExpr.toJson_mk (name : String) (nullable : Bool) (args : List TypeExpr) :
    toJson (.mk name nullable args) = ofMembers [("name", .text name), ("nullable", .bool nullable),
      ("args", .array (args.map toJson))] := by
  rw [toJson, typeArgs_eq_map]
  rfl

variable {n : Nat}

/-- A list is read if its items are read as deep as they are nested. -/
theorem listField?_map {α : Type} {read : Json → Option α} {write : α → Json} {xs : List α}
    (each : ∀ {x}, (write x).nesting ≤ n → read (write x) = some x)
    (h : (array (xs.map write)).nesting ≤ n) :
    listField? read (some (.array (xs.map write))) = some xs :=
  items?_map fun _ mem => each (nesting_le_of_mem_array h _ (List.mem_map_of_mem mem))

/-- Names are read. -/
theorem listField?_text (names : List String) :
    listField? text? (some (.array (names.map .text))) = some names :=
  items?_map fun _ _ => rfl

theorem typeExpr?_toJson {depth : Nat} {t : TypeExpr} (h : t.toJson.nesting ≤ depth) :
    typeExpr? depth t.toJson = some t := by
  induction depth generalizing t with
  | zero =>
    cases t
    cases h
  | succ depth ih =>
    obtain ⟨name, nullable, args⟩ := t
    rw [TypeExpr.toJson_mk] at h ⊢
    have inner := nesting_ofMembers_le_iff.1 h
    simp only [List.forall_mem_cons] at inner
    simp [typeExpr?, fields?_ofMembers, listField?_map ih inner.2.2.1]

theorem fieldDecl?_toJson {f : FieldDecl} (h : f.toJson.nesting ≤ depthLimit) :
    fieldDecl? f.toJson = some f := by
  have inner := nesting_le_of_mem_ofMembers h
  simp only [List.forall_mem_cons] at inner
  simp [fieldDecl?, FieldDecl.toJson, fields?_ofMembers, typeExpr?_toJson inner.2.1]

theorem TypeExpr.toJson_ne_null (t : TypeExpr) : t.toJson ≠ .null := by
  cases t
  nofun

theorem methodDecl?_members {m : MethodDecl}
    (h : ∀ member ∈ m.members, member.2.nesting ≤ depthLimit) :
    methodDecl? (ofMembers m.members) = some m := by
  simp only [MethodDecl.members, List.forall_mem_cons] at h
  obtain ⟨-, args, result, -⟩ := h
  have args := listField?_map fieldDecl?_toJson args
  rcases m with ⟨name, list, _ | t⟩
  case none => simp [methodDecl?, MethodDecl.members, fields?_ofMembers, args]
  case some =>
    simp [methodDecl?, MethodDecl.members, fields?_ofMembers, args,
      nullable?_of_ne t.toJson_ne_null, typeExpr?_toJson result]

theorem methodDecl?_toJson {m : MethodDecl} (h : m.toJson.nesting ≤ depthLimit) :
    methodDecl? m.toJson = some m :=
  methodDecl?_members (nesting_le_of_mem_ofMembers h)

/-- The members of a class. -/
def ClassDecl.members (d : ClassDecl) : List (String × Json) :=
  [("name", .text d.name), ("extends", match d.parent with
      | none => .null
      | some parent => .text parent),
    ("implements", .array (d.implements.map .text)),
    ("fields", .array (d.fields.map FieldDecl.toJson)),
    ("methods", .array (d.methods.map MethodDecl.toJson))]

theorem classDecl?_members {d : ClassDecl}
    (h : ∀ member ∈ d.members, member.2.nesting ≤ depthLimit) :
    classDecl? (ofMembers d.members) = some d := by
  simp only [ClassDecl.members, List.forall_mem_cons] at h
  obtain ⟨-, -, -, fields, methods, -⟩ := h
  have fields := listField?_map fieldDecl?_toJson fields
  have methods := listField?_map methodDecl?_toJson methods
  rcases d with ⟨name, _ | parent, implements, own, callable⟩
  case none =>
    simp [classDecl?, ClassDecl.members, fields?_ofMembers, listField?_text, fields, methods]
  case some =>
    have parent : nullable? text? (.text parent) = some (some parent) := nullable?_of_ne nofun
    simp [classDecl?, ClassDecl.members, fields?_ofMembers, listField?_text, fields, methods,
      parent]

/-- The members of an interface. -/
def InterfaceDecl.members (d : InterfaceDecl) : List (String × Json) :=
  [("name", .text d.name), ("extends", .array (d.parents.map .text)),
    ("methods", .array (d.methods.map MethodDecl.toJson))]

theorem interfaceDecl?_members {d : InterfaceDecl}
    (h : ∀ member ∈ d.members, member.2.nesting ≤ depthLimit) :
    interfaceDecl? (ofMembers d.members) = some d := by
  simp only [InterfaceDecl.members, List.forall_mem_cons] at h
  obtain ⟨-, -, methods, -⟩ := h
  have methods := listField?_map methodDecl?_toJson methods
  simp [interfaceDecl?, InterfaceDecl.members, fields?_ofMembers, listField?_text, methods]

/-- The members of an object type. -/
def ObjectDecl.members (d : ObjectDecl) : List (String × Json) :=
  [("name", .text d.name), ("fields", .array (d.fields.map FieldDecl.toJson))]

theorem objectDecl?_members {d : ObjectDecl}
    (h : ∀ member ∈ d.members, member.2.nesting ≤ depthLimit) :
    objectDecl? (ofMembers d.members) = some d := by
  simp only [ObjectDecl.members, List.forall_mem_cons] at h
  obtain ⟨-, fields, -⟩ := h
  have fields := listField?_map fieldDecl?_toJson fields
  simp [objectDecl?, ObjectDecl.members, fields?_ofMembers, fields]

/-- The tag of a tagged record is read, and the other members are left. -/
theorem tagged?_ofMembers (tag : String) {members : List (String × Json)}
    (distinct : ("kind" :: members.map (·.1)).Nodup) :
    tagged? (ofMembers (("kind", .text tag) :: members)) = some (tag, ofMembers members) := by
  have found : member? ((some "kind", text tag) :: members.map fun m => (some m.1, m.2)) "kind" =
      some (some (text tag)) :=
    member?_of_mem (("kind", text tag) :: members) distinct (.head _)
  have others : ((some "kind", text tag) :: members.map fun m => (some m.1, m.2)).filter
      (fun m => m.1 ≠ some "kind") = members.map fun m => (some m.1, m.2) := by
    rw [List.filter_cons_of_neg (by simp), List.filter_eq_self]
    intro m mem
    obtain ⟨own, given, rfl⟩ := List.mem_map.1 mem
    have other : own.1 ≠ "kind" := fun same =>
      (List.nodup_cons.1 distinct).1 (List.mem_map.2 ⟨own, given, same⟩)
    simpa using other
  rw [ofMembers, List.map_cons, tagged?, found]
  dsimp only [Option.bind_eq_bind, Option.bind_some, text?_text]
  rw [others]
  rfl

/-- The tag of an export. -/
def ExportDecl.tag : ExportDecl → String
  | ofClass _ => "class"
  | ofFunction _ => "function"
  | ofInterface _ => "interface"
  | ofObject _ => "object"

/-- The members of an export, apart from its tag. -/
def ExportDecl.members : ExportDecl → List (String × Json)
  | ofClass d => d.members
  | ofFunction d => d.members
  | ofInterface d => d.members
  | ofObject d => d.members

theorem ExportDecl.toJson_eq (e : ExportDecl) :
    e.toJson = ofMembers (("kind", .text e.tag) :: e.members) := by
  cases e <;> rfl

/-- An export that is not nested too deeply is read. -/
theorem exportDecl?_toJson {e : ExportDecl} (h : e.toJson.nesting ≤ depthLimit - 2) :
    exportDecl? e.toJson = some e := by
  have sound := e.consists.isSound_iff.2 h
  have shallow : e.toJson.nesting ≤ depthLimit := h.trans (Nat.sub_le _ _)
  rw [e.toJson_eq] at shallow
  have inner : ∀ m ∈ e.members, m.2.nesting ≤ depthLimit :=
    fun m mem => nesting_le_of_mem_ofMembers shallow m (.tail _ mem)
  have tagged : tagged? e.toJson = some (e.tag, ofMembers e.members) := by
    rw [e.toJson_eq]
    exact tagged?_ofMembers e.tag (by
      cases e <;> simp [ExportDecl.members, ClassDecl.members, MethodDecl.members,
        InterfaceDecl.members, ObjectDecl.members])
  simp only [exportDecl?, sound, guard_true, tagged, Option.pure_def, Option.bind_eq_bind,
    Option.bind_some]
  cases e with
  | ofClass d => simp [ExportDecl.tag, ExportDecl.members, classDecl?_members inner]
  | ofFunction d => simp [ExportDecl.tag, ExportDecl.members, methodDecl?_members inner]
  | ofInterface d => simp [ExportDecl.tag, ExportDecl.members, interfaceDecl?_members inner]
  | ofObject d => simp [ExportDecl.tag, ExportDecl.members, objectDecl?_members inner]

theorem ImportDecl.nesting_toJson (d : ImportDecl) : d.toJson.nesting ≤ depthLimit - 2 := by
  rw [toJson, depthLimit, nesting_ofMembers_le_iff]
  simp

theorem importDecl?_toJson (d : ImportDecl) : importDecl? d.toJson = some d := by
  have sound := d.consists.isSound_iff.2 d.nesting_toJson
  have tagged : tagged? d.toJson =
      some (d.kind.tag, ofMembers [("name", .text d.name), ("pkg", .text d.package)]) :=
    tagged?_ofMembers d.kind.tag (by simp)
  obtain ⟨kind, name, package⟩ := d
  cases kind <;> simp [importDecl?, sound, tagged, ImportKind.tag, importKind?, fields?_ofMembers]

theorem natBelow?_nat {bound k : Nat} (below : k < bound) : natBelow? bound (.nat k) = some k := by
  simp [natBelow?, nat, Number.toNat?, Option.filter, below]

/-- How deep a document is nested is up to its exports. -/
theorem Document.nesting_le_iff {d : Document} :
    d.toJson.nesting ≤ depthLimit ↔ ∀ e ∈ d.exports, e.toJson.nesting ≤ depthLimit - 2 := by
  have imports : ∀ i ∈ d.imports, i.toJson.nesting ≤ 125 := fun i _ => i.nesting_toJson
  rw [toJson, depthLimit, nesting_ofMembers_le_iff]
  simpa [nesting_array_le_iff] using fun _ => imports

/-- A document that is not nested too deeply is read. -/
theorem Document.ofJson?_toJson {d : Document} (h : d.toJson.nesting ≤ depthLimit) :
    ofJson? d.toJson = some d := by
  have version := natBelow?_nat d.version.toNat_lt
  have exports : listField? exportDecl? (some (.array (d.exports.map ExportDecl.toJson))) =
      some d.exports :=
    items?_map fun e mem => exportDecl?_toJson (nesting_le_iff.1 h e mem)
  have imports : listField? importDecl? (some (.array (d.imports.map ImportDecl.toJson))) =
      some d.imports :=
    items?_map fun i _ => importDecl?_toJson i
  simp [ofJson?, toJson, fields?_ofMembers, UInt16.size, version, exports, imports]

/-! ### What is read is not nested too deeply -/

/-- What is read from a value that is sound to some depth is written no deeper than that. -/
def Keeps {α : Type} (read : Json → Option α) (write : α → Json) (n : Nat) : Prop :=
  ∀ j x, read j = some x → j.isSound n = true → (write x).nesting ≤ n

/-- The items of a list are read from items. -/
theorem exists_of_listField? {α : Type} {read : Json → Option α} {field : Option Json} {xs : List α}
    (h : listField? read field = some xs) {x : α} (mem : x ∈ xs) :
    ∃ items, field = some (.array items) ∧ ∃ j ∈ items, read j = some x := by
  rcases field with _ | j
  case none =>
    cases h
    cases mem
  case some =>
    cases j with
    | array items => exact ⟨items, rfl, exists_of_mapM_eq_some h mem⟩
    | _ => cases h

theorem Keeps.listField {α : Type} {read : Json → Option α} {write : α → Json}
    (keeps : Keeps read write n) {field : Option Json} {xs : List α}
    (h : listField? read field = some xs) (sound : ∀ j ∈ field, j.isSound (n + 1) = true) :
    (array (xs.map write)).nesting ≤ n + 1 := by
  rw [nesting_array_le_iff, List.forall_mem_map]
  intro x mem
  obtain ⟨items, rfl, j, inside, read⟩ := exists_of_listField? h mem
  exact keeps j x read (areSound_iff.1 (sound _ rfl) j inside)

theorem keeps_typeExpr? {depth m : Nat} : Keeps (typeExpr? depth) TypeExpr.toJson (2 * m) := by
  intro j t h sound
  induction depth generalizing m j t with
  | zero => cases h
  | succ depth ih =>
    obtain ⟨fields, k, h, level, inner⟩ := exists_fields h sound
    split at h
    case h_2 => cases h
    case h_1 name nullable args =>
      simp only [Option.bind_eq_bind, Option.bind_eq_some_iff, Option.pure_def,
        Option.some.injEq] at h
      obtain ⟨_, -, name, -, nullable, -, list, read, rfl⟩ := h
      obtain ⟨m, rfl⟩ : ∃ l, m = l + 1 := ⟨m - 1, by omega⟩
      obtain rfl : k = 2 * m + 1 := by omega
      have keeps : Keeps (typeExpr? depth) TypeExpr.toJson (2 * m) := ih
      have args := keeps.listField read (inner _ (by simp))
      rw [TypeExpr.toJson_mk, Nat.mul_add, nesting_ofMembers_le_iff]
      simpa using args

theorem keeps_fieldDecl? {m : Nat} : Keeps fieldDecl? FieldDecl.toJson (2 * m + 1) := by
  intro j f h sound
  obtain ⟨fields, k, h, level, inner⟩ := exists_fields h sound
  obtain rfl : k = 2 * m := by omega
  split at h
  case h_2 => cases h
  case h_1 name ty =>
    simp only [Option.bind_eq_bind, Option.bind_eq_some_iff, Option.pure_def,
      Option.some.injEq] at h
    obtain ⟨_, -, name, -, value, rfl, t, read, rfl⟩ := h
    have ty := keeps_typeExpr? _ _ read (inner _ (by simp) value rfl)
    rw [FieldDecl.toJson, nesting_ofMembers_le_iff]
    simpa using ty

theorem keeps_methodDecl? {m : Nat} :
    Keeps methodDecl? (fun d => ofMembers d.members) (2 * m + 3) := by
  intro j d h sound
  obtain ⟨fields, k, h, level, inner⟩ := exists_fields h sound
  obtain rfl : k = 2 * (m + 1) := by omega
  split at h
  case h_2 => cases h
  case h_1 name args result =>
    simp only [Option.bind_eq_bind, Option.bind_eq_some_iff, Option.pure_def,
      Option.some.injEq] at h
    obtain ⟨_, -, name, -, list, read, written, returned, rfl⟩ := h
    have args := keeps_fieldDecl?.listField read (inner _ (by simp))
    rw [nesting_ofMembers_le_iff]
    simp only [MethodDecl.members, List.forall_mem_cons]
    refine ⟨Nat.zero_le _, args, ?_, nofun⟩
    rcases written with _ | t
    · exact Nat.zero_le _
    · obtain ⟨value, rfl, read⟩ := exists_of_nullable? returned
      exact keeps_typeExpr? _ _ read (inner _ (by simp) value rfl)

theorem nesting_names_le (names : List String) (n : Nat) :
    (array (names.map text)).nesting ≤ n + 1 := by
  simp [nesting_array_le_iff]

theorem keeps_classDecl? {m : Nat} :
    Keeps classDecl? (fun d => ofMembers d.members) (2 * m + 5) := by
  intro j d h sound
  obtain ⟨fields, k, h, level, inner⟩ := exists_fields h sound
  obtain rfl : k = 2 * m + 4 := by omega
  split at h
  case h_2 => cases h
  case h_1 =>
    simp only [Option.bind_eq_bind, Option.bind_eq_some_iff, Option.pure_def,
      Option.some.injEq] at h
    obtain ⟨_, -, name, -, parent, -, implements, -, own, ownRead, methods, methodsRead, rfl⟩ := h
    have deeper : Keeps fieldDecl? FieldDecl.toJson (2 * m + 3) := keeps_fieldDecl? (m := m + 1)
    have own := deeper.listField ownRead (inner _ (by simp))
    have methods := keeps_methodDecl?.listField methodsRead (inner _ (by simp))
    rw [nesting_ofMembers_le_iff]
    simp only [ClassDecl.members, List.forall_mem_cons]
    refine ⟨Nat.zero_le _, ?_, nesting_names_le _ _, own, methods, nofun⟩
    cases parent <;> exact Nat.zero_le _

theorem keeps_interfaceDecl? {m : Nat} :
    Keeps interfaceDecl? (fun d => ofMembers d.members) (2 * m + 5) := by
  intro j d h sound
  obtain ⟨fields, k, h, level, inner⟩ := exists_fields h sound
  obtain rfl : k = 2 * m + 4 := by omega
  split at h
  case h_2 => cases h
  case h_1 =>
    simp only [Option.bind_eq_bind, Option.bind_eq_some_iff, Option.pure_def,
      Option.some.injEq] at h
    obtain ⟨_, -, name, -, parents, -, methods, read, rfl⟩ := h
    have methods := keeps_methodDecl?.listField read (inner _ (by simp))
    rw [nesting_ofMembers_le_iff]
    simp only [InterfaceDecl.members, List.forall_mem_cons]
    exact ⟨Nat.zero_le _, nesting_names_le _ _, methods, nofun⟩

theorem keeps_objectDecl? {m : Nat} :
    Keeps objectDecl? (fun d => ofMembers d.members) (2 * m + 3) := by
  intro j d h sound
  obtain ⟨fields, k, h, level, inner⟩ := exists_fields h sound
  obtain rfl : k = 2 * m + 2 := by omega
  split at h
  case h_2 => cases h
  case h_1 =>
    simp only [Option.bind_eq_bind, Option.bind_eq_some_iff, Option.pure_def,
      Option.some.injEq] at h
    obtain ⟨_, -, name, -, own, read, rfl⟩ := h
    have own := keeps_fieldDecl?.listField read (inner _ (by simp))
    rw [nesting_ofMembers_le_iff]
    simp only [ObjectDecl.members, List.forall_mem_cons]
    exact ⟨Nat.zero_le _, own, nofun⟩

/-- Without its tag a tagged record is as sound as with it. -/
theorem isSound_of_tagged? {j body : Json} {tag : String} (h : tagged? j = some (tag, body))
    (sound : j.isSound n = true) : body.isSound n = true := by
  unfold tagged? at h
  split at h
  case h_1 members =>
    obtain ⟨found, -, h⟩ := Option.bind_eq_some_iff.1 h
    split at h
    case h_2 => cases h
    case h_1 =>
      obtain ⟨_, -, h⟩ := Option.bind_eq_some_iff.1 h
      cases h
      cases n with
      | zero => cases sound
      | succ n =>
        have each := membersSound_iff.1 sound
        exact membersSound_iff.2 fun m mem => each m (List.mem_of_mem_filter mem)
  case h_2 first items =>
    obtain ⟨_, -, h⟩ := Option.bind_eq_some_iff.1 h
    cases h
    cases n with
    | zero => cases sound
    | succ n =>
      have each := areSound_iff.1 sound
      exact areSound_iff.2 fun j mem => each j (.tail _ mem)
  case h_3 => cases h

/-- An export that is read is not nested too deeply. -/
theorem nesting_of_exportDecl? {j : Json} {e : ExportDecl} (h : exportDecl? j = some e) :
    e.toJson.nesting ≤ depthLimit - 2 := by
  obtain ⟨_, sound, h⟩ := Option.bind_eq_some_iff.1 h
  obtain ⟨⟨tag, body⟩, tagged, h⟩ := Option.bind_eq_some_iff.1 h
  have sound := isSound_of_tagged? tagged ((Option.guard_eq_some' _).1 sound)
  have kept : (ofMembers e.members).nesting ≤ depthLimit - 2 := by
    dsimp only at h
    split at h
    case h_5 => cases h
    all_goals
      obtain ⟨d, read, h⟩ := Option.bind_eq_some_iff.1 h
      cases h
    · exact keeps_classDecl? (m := 60) _ _ read sound
    · exact keeps_methodDecl? (m := 61) _ _ read sound
    · exact keeps_interfaceDecl? (m := 60) _ _ read sound
    · exact keeps_objectDecl? (m := 61) _ _ read sound
  rw [e.toJson_eq]
  rw [depthLimit, nesting_ofMembers_le_iff] at kept ⊢
  exact List.forall_mem_cons.2 ⟨Nat.zero_le _, kept⟩

/-- A document that is read from any text is not nested too deeply. -/
theorem Document.nesting_of_ofJson? {j : Json} {d : Document} (h : ofJson? j = some d) :
    d.toJson.nesting ≤ depthLimit := by
  rw [nesting_le_iff]
  obtain ⟨fields, found, h⟩ := Option.bind_eq_some_iff.1 h
  split at h
  case h_2 => cases h
  case h_1 =>
    simp only [Option.bind_eq_bind, Option.bind_eq_some_iff, Option.pure_def,
      Option.some.injEq] at h
    obtain ⟨_, -, version, -, exports, read, imports, -, rfl⟩ := h
    intro e mem
    obtain ⟨items, -, j, -, read⟩ := exists_of_listField? read mem
    exact nesting_of_exportDecl? read

/-! ### Documents and their texts -/

/-- The text of a document is read as its JSON value. -/
theorem Document.parse?_render (d : Document) : parse? d.render = ofJson? d.toJson := by
  have proper : Number.Proper ⟨false, d.version.toNat, none, none⟩ := nofun
  rw [parse?, render, parse_render (d.consists proper)]
  rfl

/-- A document is read from its own text exactly if no more arrays and objects stand inside each
other there than a text may have, and so is every document that has been read from a text. -/
theorem Document.survives_text :
    (∀ d : Document, parse? d.render = some d ↔ d.toJson.nesting ≤ depthLimit) ∧
      ∀ s d, parse? s = some d → parse? d.render = some d := by
  have again (d : Document) : parse? d.render = some d ↔ d.toJson.nesting ≤ depthLimit := by
    rw [d.parse?_render]
    exact ⟨nesting_of_ofJson?, ofJson?_toJson⟩
  refine ⟨again, fun s d read => ?_⟩
  obtain ⟨j, -, read⟩ := Option.bind_eq_some_iff.1 read
  exact (again d).2 (nesting_of_ofJson? read)

/-- A document that exports an object type. -/
def Document.smiling : Document :=
  ⟨7, [.ofObject ⟨"😀", [⟨"x", .mk "Array" true [.mk "u8" false []]⟩]⟩], []⟩

/-- A text of this document with arrays in place of records, an escaped name, and fields that are
left out. -/
def Document.smilingText : String :=
  "\x7b\"version\": 7, \"exports\": [[\"object\", \"\\ud83d\\ude00\", " ++
    "[[\"x\", [\"Array\", true, [\x7b\"name\":\"u8\"\x7d]]]]]]\x7d"

theorem Document.survives_text_smiling :
    parse? smilingText = some smiling ∧ parse? smiling.render = some smiling := by
  have read : parse? smilingText = some smiling := by cbv
  exact ⟨read, survives_text.2 _ _ read⟩

end JigLedger.Abi
