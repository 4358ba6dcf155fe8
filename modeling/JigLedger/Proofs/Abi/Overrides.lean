import JigLedger.Proofs.Abi.Inheritance

/-!
# Methods that override others

Methods are called by their index in the table of a class. The table of a derived class has the same
names at the same indices, but a class that declares a name again puts its own method there, and
nothing compares parameters and results with what was there before. So what is prepared for a method
of a class suits a jig of a derived class as long as the declarations on the way keep the signature.
-/

namespace JigLedger.Abi

open Relation (ReflTransGen TransGen)

/-- How a callable takes its arguments and what it returns, whatever the names of its parameters. -/
def Callable.signature (m : Callable) : List (Ty × UInt32) × Option Ty :=
  (m.params.map fun f => (f.ty, f.offset), m.result)

/-- The last method with a name that a class declares. -/
def ClassDecl.lastMethod? (d : ClassDecl) (name : String) : Option MethodDecl :=
  (d.methods.filter (·.name = name)).getLast?

namespace Scope

variable {s : Scope} {d : ClassDecl} {m x : Callable} {table table' : List Callable} {i : Nat}

/-! ### One class -/

theorem nodup_putMethod (nodup : (table.map (·.name)).Nodup) :
    ((putMethod m table).map (·.name)).Nodup := by
  induction table with
  | nil => exact List.nodup_singleton _
  | cons first rest ih =>
    obtain ⟨new, others⟩ := List.nodup_cons.1 nodup
    rw [putMethod]
    by_cases here : first.name = m.name
    · rw [if_pos here, List.map_cons, ← here]
      exact nodup
    · rw [if_neg here, List.map_cons]
      refine List.nodup_cons.2 ⟨fun mem => ?_, ih others⟩
      obtain ⟨other, there, same⟩ := List.mem_map.1 mem
      rcases mem_putMethod there with rfl | old
      · exact here same.symm
      · exact new (List.mem_map.2 ⟨other, old, same⟩)

/-- A method takes the place of the one with its name. -/
theorem getElem?_putMethod (nodup : (table.map (·.name)).Nodup) (hx : table[i]? = some x) :
    (putMethod m table)[i]? = some (if x.name = m.name then m else x) := by
  induction table generalizing i with
  | nil => cases hx
  | cons first rest ih =>
    obtain ⟨new, nodup⟩ := List.nodup_cons.1 nodup
    rw [putMethod]
    by_cases here : first.name = m.name
    · rw [if_pos here]
      cases i with
      | zero =>
        cases hx
        rw [if_pos here]
        rfl
      | succ i =>
        have other : x.name ≠ m.name := fun same =>
          new (List.mem_map.2 ⟨x, List.mem_of_getElem? hx, same.trans here.symm⟩)
        rw [if_neg other]
        exact hx
    · rw [if_neg here]
      cases i with
      | zero =>
        cases hx
        rw [if_neg here]
        rfl
      | succ i => exact ih nodup hx

/-- A table of methods: their names are different, and none is that of constructors. -/
structure Tabled (table : List Callable) : Prop where
  nodup : (table.map (·.name)).Nodup
  plain : ∀ m ∈ table, m.name ≠ constructorName

/-- A class puts a method of its own into a table, the last one that it declares with this name. -/
def Puts (s : Scope) (d : ClassDecl) (m : Callable) : Prop :=
  ∃ last, d.lastMethod? m.name = some last ∧
    s.callable last s!"{d.name}${last.name}" = .ok m

theorem name_callable {decl : MethodDecl} {exportName : String}
    (h : s.callable decl exportName = .ok m) : m.name = decl.name := by
  obtain ⟨_, -, h⟩ := bind_eq_ok.1 h
  obtain ⟨_, -, same⟩ := bind_eq_ok.1 h
  cases same
  rfl

/-- In the place of a method is now the last one of some declarations with its name, if any. -/
def Replaced (s : Scope) (d : ClassDecl) (x : Callable) (i : Nat) (taken : List MethodDecl)
    (now : List Callable) : Prop :=
  ∃ x', now[i]? = some x' ∧ x'.name = x.name ∧
    match (taken.filter (·.name = x.name)).getLast? with
    | none => x' = x
    | some last => s.callable last s!"{d.name}${last.name}" = .ok x'

theorem Replaced.step {decl : MethodDecl} {taken : List MethodDecl} {now : List Callable}
    (h : s.Replaced d x i taken now) (nodup : (now.map (·.name)).Nodup)
    (resolved : s.callable decl s!"{d.name}${decl.name}" = .ok m) :
    s.Replaced d x i (taken ++ [decl]) (putMethod m now) := by
  obtain ⟨x', hx', same, before⟩ := h
  have named := name_callable resolved
  refine ⟨_, getElem?_putMethod nodup hx', ?_⟩
  rw [List.filter_append]
  by_cases here : x'.name = m.name
  · have again : decl.name = x.name := by rw [← named, ← here, same]
    rw [if_pos here, List.filter_cons_of_pos (by simpa using again), List.filter_nil,
      List.getLast?_concat]
    exact ⟨here.symm.trans same, resolved⟩
  · have other : decl.name ≠ x.name := by rwa [← named, ← same, ne_comm]
    rw [if_neg here, List.filter_cons_of_neg (by simpa using other), List.filter_nil,
      List.append_nil]
    exact ⟨same, before⟩

/-- The methods that a class declares are put into a table one by one. -/
theorem replaced_addMethods (tabled : Tabled table) (h : s.addMethods table d = .ok table') :
    Tabled table' ∧ ∀ i x, table[i]? = some x →
      s.Replaced d x i (d.methods.filter (·.name ≠ constructorName)) table' := by
  refine foldlM_induction (P := fun taken now => Tabled now ∧
    ∀ i x, table[i]? = some x → s.Replaced d x i taken now)
    ⟨tabled, fun i x hx => ⟨x, hx, rfl, rfl⟩⟩ ?_ h
  rintro taken decl hd now next ⟨known, entries⟩ put
  obtain ⟨m, resolved, same⟩ := bind_eq_ok.1 put
  cases same
  have plain : decl.name ≠ constructorName := by simpa using (List.mem_filter.1 hd).2
  refine ⟨⟨nodup_putMethod known.nodup, fun other mem => ?_⟩,
    fun i x hx => (entries i x hx).step known.nodup resolved⟩
  rcases mem_putMethod mem with rfl | old
  · rwa [name_callable resolved]
  · exact known.plain other old

/-- What becomes of a method when a class adds its own ones: it stays unless the class declares its
name. -/
theorem addMethods_eq_ok (tabled : Tabled table) (h : s.addMethods table d = .ok table')
    (hx : table[i]? = some x) : ∃ x', table'[i]? = some x' ∧ x'.name = x.name ∧
      ((x' = x ∧ ∀ decl ∈ d.methods, decl.name ≠ x.name) ∨ s.Puts d x') := by
  obtain ⟨x', hx', same, from_⟩ := (replaced_addMethods tabled h).2 i x hx
  have plain := tabled.plain x (List.mem_of_getElem? hx)
  have all : (d.methods.filter (·.name ≠ constructorName)).filter (·.name = x.name) =
      d.methods.filter (·.name = x.name) := by
    rw [List.filter_filter]
    refine List.filter_congr fun decl _ => ?_
    by_cases named : decl.name = x.name <;> simp [named, plain]
  rw [all] at from_
  refine ⟨x', hx', same, ?_⟩
  cases found : (d.methods.filter (·.name = x.name)).getLast? with
  | none =>
    rw [found] at from_
    have nobody := List.filter_eq_nil_iff.1 (List.getLast?_eq_none_iff.1 found)
    exact .inl ⟨from_, fun decl hd named => nobody decl hd (by simpa using named)⟩
  | some last =>
    rw [found] at from_
    exact .inr ⟨last, by rw [ClassDecl.lastMethod?, same, found], from_⟩

theorem tabled_nil : Tabled [] := ⟨List.nodup_nil, List.forall_mem_nil _⟩

/-- The methods of a class are a table. -/
theorem tabled_methods {lineage : List ClassDecl}
    (h : lineage.foldlM s.addMethods [] = .ok table) : Tabled table :=
  foldlM_induction (P := fun _ table => Tabled table) tabled_nil
    (fun _ _ _ _ _ tabled added => (replaced_addMethods tabled added).1) h

end Scope

/-! ### Any number of levels -/

variable {package : PackageId} {doc : Document} {a : Abi} {c q e p p' : Class} {m m' : Callable}
  {i : Nat}

/-- A class declares a method with a name. -/
def Declares (a : Abi) (c : Class) (name : String) : Prop :=
  ∃ d : ClassDecl, .ofClass d ∈ a.document.exports ∧ d.name = c.name ∧
    ∃ m ∈ d.methods, m.name = name

/-- A class puts a method of its own into its table. -/
def Overrides (a : Abi) (c : Class) (m : Callable) : Prop :=
  ∃ d : ClassDecl, .ofClass d ∈ a.document.exports ∧ d.name = c.name ∧ a.scope.Puts d m

/-- A class is `c` or an ancestor of it, and it is derived from `q`. -/
def Between (a : Abi) (c e q : Class) : Prop :=
  ReflTransGen a.Inherits c e ∧ TransGen a.Inherits e q

theorem tabled_of_mem (h : resolve package doc = .ok a) (hc : c ∈ a.classes) :
    Scope.Tabled c.methods := by
  obtain ⟨decl, -, -, -, idx, resolved⟩ := exists_resolveClass_of_mem h hc
  simp only [Scope.resolveClass, bind_eq_ok, pure, Except.pure, Except.ok.injEq] at resolved
  obtain ⟨_, -, _, -, methods, added, _, -, _, -, rfl⟩ := resolved
  exact Scope.tabled_methods added

/-- A class has the methods of its parent, but for those whose names it declares itself. -/
theorem Inherits.method (h : resolve package doc = .ok a) (above : a.Inherits c p)
    (hm : p.methods[i]? = some m) : ∃ m', c.methods[i]? = some m' ∧ m'.name = m.name ∧
      ((m' = m ∧ ¬ a.Declares c m.name) ∨ a.Overrides c m') := by
  obtain ⟨d, exported, named, continues⟩ := above.continues h
  have formed := wellFormed_of_resolve h
  obtain ⟨m', hm', same, own⟩ :=
    Scope.addMethods_eq_ok (tabled_of_mem h above.2.1) continues.methods hm
  refine ⟨m', hm', same, ?_⟩
  rcases own with ⟨kept, silent⟩ | puts
  · refine .inl ⟨kept, ?_⟩
    rintro ⟨d', exported', named', decl, hd, again⟩
    cases formed.distinct.export_eq exported exported' (named.trans named'.symm)
    exact silent decl hd again
  · exact .inr ⟨d, exported, named, puts⟩

/-- There is one class with a name. -/
theorem eq_of_class_name (h : resolve package doc = .ok a) (hp : p ∈ a.classes)
    (hp' : p' ∈ a.classes) (same : p.name = p'.name) : p = p' := by
  have formed := wellFormed_of_resolve h
  have named {c : Class} {idx : Nat} (found : a.classAt idx = .ok c) :
      (a.scope.exports.map (·.name))[idx]? = some c.name := by
    obtain ⟨decl, declared, resolved⟩ := exists_resolveClass_of_classAt h found
    obtain ⟨-, rfl, -, -⟩ := resolve_eq_ok h
    rw [List.getElem?_map, (Scope.wellFormed_resolveClass resolved).1.1]
    exact congrArg (Option.map ExportDecl.name) declared
  obtain ⟨idx, found⟩ := exists_classAt_of_mem hp
  obtain ⟨idx', found'⟩ := exists_classAt_of_mem hp'
  have here := named found
  have there := named found'
  have index : idx = idx' := (List.getElem?_inj (List.getElem?_eq_some_iff.1 here).1
    formed.distinct.exports).1 (here.trans (same ▸ there.symm))
  rw [index, found'] at found
  exact (Except.ok.inj found).symm

/-- A class has one parent. -/
theorem Inherits.unique (h : resolve package doc = .ok a) (hp : a.Inherits c p)
    (hp' : a.Inherits c p') : p = p' :=
  eq_of_class_name h hp.2.1 hp'.2.1 (Option.some.inj (hp.2.2.symm.trans hp'.2.2))

/-- What a class inherits from is what its declaration is derived from. -/
theorem derives_of_inherits (h : resolve package doc = .ok a) (below : TransGen a.Inherits c q)
    {d d' : ClassDecl} (hd : .ofClass d ∈ a.scope.exports) (hc : d.name = c.name)
    (hd' : .ofClass d' ∈ a.scope.exports) (hq : d'.name = q.name) :
    TransGen a.scope.Derives d d' := by
  have distinct := (wellFormed_of_resolve h).distinct
  have step {c q : Class} {d d' : ClassDecl} (above : a.Inherits c q)
      (hd : .ofClass d ∈ a.scope.exports) (hc : d.name = c.name)
      (hd' : .ofClass d' ∈ a.scope.exports) (hq : d'.name = q.name) : a.scope.Derives d d' := by
    obtain ⟨decl, exported, named, parent, -⟩ := exists_resolveClass_of_mem h above.1
    cases distinct.export_eq hd exported (hc.trans named)
    exact ⟨hd', by rw [← parent, above.2.2, hq]⟩
  induction below generalizing d' with
  | single above => exact .single (step above hd hc hd' hq)
  | tail below above ih =>
    obtain ⟨decl, exported, named, -, -⟩ := exists_resolveClass_of_mem h above.1
    exact .tail (ih exported named.symm) (step above exported named.symm hd' hq)

/-- No class is derived from itself. -/
theorem not_transGen_inherits (h : resolve package doc = .ok a) : ¬ TransGen a.Inherits c c := by
  intro round
  have formed := wellFormed_of_resolve h
  obtain ⟨p, above, -⟩ := TransGen.head'_iff.1 round
  obtain ⟨d, exported, named, -, -⟩ := exists_resolveClass_of_mem h above.1
  obtain ⟨p, parent, below⟩ :=
    TransGen.head'_iff.1 (derives_of_inherits h round exported named.symm exported named.symm)
  obtain ⟨-, document, -, -⟩ := resolve_eq_ok h
  obtain ⟨chain, lineage, nodup⟩ := formed.lineage d exported
  -- The class would stand among its own ancestors, under its own name.
  cases lineage with
  | root _ first => exact absurd (first.symm.trans parent.2) nofun
  | derived _ parent' above =>
    obtain rfl := formed.distinct.parent_eq parent parent'
    exact (List.nodup_cons.1 nodup).1
      (List.mem_map_of_mem ((above.mem_iff formed.distinct).2 below))

/-- What a class has in the place of a method of an ancestor: that method if no class on the way
declares its name, and otherwise what the nearest one of them puts there. -/
theorem exists_method_of_inherits (h : resolve package doc = .ok a)
    (below : ReflTransGen a.Inherits c q) (hm : q.methods[i]? = some m) :
    ∃ m', c.methods[i]? = some m' ∧ m'.name = m.name ∧
      ((m' = m ∧ ∀ e, a.Between c e q → ¬ a.Declares e m.name) ∨
        ∃ e, a.Between c e q ∧ a.Overrides e m' ∧
          ∀ f, a.Between c f e → ¬ a.Declares f m.name) := by
  induction below using ReflTransGen.head_induction_on with
  | refl =>
    exact ⟨m, hm, rfl, .inl ⟨rfl, fun e ⟨up, down⟩ _ =>
      not_transGen_inherits h (TransGen.trans_right up down)⟩⟩
  | @head c p above below ih =>
    obtain ⟨m₁, hm₁, same₁, from₁⟩ := ih
    obtain ⟨m', hm', same, own⟩ := above.method h hm₁
    -- What is between is the class itself or between for its parent as well.
    have split {f g : Class} (between : a.Between c f g) : f = c ∨ a.Between p f g := by
      rcases between.1.cases_head with rfl | ⟨p', above', up⟩
      · exact .inl rfl
      · exact .inr ⟨above.unique h above' ▸ up, between.2⟩
    refine ⟨m', hm', same.trans same₁, ?_⟩
    rcases own with ⟨rfl, none⟩ | puts
    · rw [same₁] at none
      have more {g : Class} (others : ∀ f, a.Between p f g → ¬ a.Declares f m.name) (f : Class)
          (between : a.Between c f g) : ¬ a.Declares f m.name := by
        rcases split between with rfl | between
        · exact none
        · exact others f between
      rcases from₁ with ⟨kept, others⟩ | ⟨e, ⟨up, down⟩, puts, others⟩
      · exact .inl ⟨kept, more others⟩
      · exact .inr ⟨e, ⟨.head above up, down⟩, puts, more others⟩
    · exact .inr ⟨c, ⟨.refl, TransGen.head' above below⟩, puts, fun f ⟨up, down⟩ _ =>
        not_transGen_inherits h (TransGen.trans_right up down)⟩

/-- The index of a method is that of its name. -/
theorem methodIndex?_eq_some (h : resolve package doc = .ok a) (hc : c ∈ a.classes)
    {name : String} :
    c.methodIndex? name = some i ↔ ∃ m, c.methods[i]? = some m ∧ m.name = name := by
  have nodup := (tabled_of_mem h hc).nodup
  unfold Class.methodIndex?
  rw [List.findIdx?_eq_some_iff_getElem]
  constructor
  · rintro ⟨inside, named, -⟩
    exact ⟨_, List.getElem?_eq_getElem inside, of_decide_eq_true named⟩
  · rintro ⟨m, found, named⟩
    obtain ⟨inside, rfl⟩ := List.getElem?_eq_some_iff.1 found
    refine ⟨inside, decide_eq_true named, fun j earlier => ?_⟩
    have apart := List.pairwise_iff_getElem.1 (List.pairwise_map.1 nodup)
    have other := apart j i (by omega) inside earlier
    simpa [← named] using other

/-- At the index of a method, a derived class has a method with the same name: the same method if no
class on the way declares this name, and otherwise what the nearest one of them puts there.
Arguments and results that are prepared for the method of the ancestor suit it if all classes on the
way keep the signature. In each table the index of a name is that of the method with this name. -/
theorem methods_inherited_or_overridden (h : resolve package doc = .ok a) :
    (∀ c q, ReflTransGen a.Inherits c q → ∀ (i : Nat) (m : Callable), q.methods[i]? = some m →
      ∃ m', c.methods[i]? = some m' ∧ m'.name = m.name ∧
        ((m' = m ∧ ∀ e, a.Between c e q → ¬ a.Declares e m.name) ∨
          ∃ e, a.Between c e q ∧ a.Overrides e m' ∧
            ∀ f, a.Between c f e → ¬ a.Declares f m.name) ∧
        ((∀ e r, a.Between c e q → a.Overrides e r → r.name = m.name → r.signature = m.signature) →
          m'.signature = m.signature)) ∧
    ∀ c ∈ a.classes, ∀ name i,
      c.methodIndex? name = some i ↔ ∃ m, c.methods[i]? = some m ∧ m.name = name := by
  refine ⟨fun c q below i m hm => ?_, fun c hc name i => methodIndex?_eq_some h hc⟩
  obtain ⟨m', hm', same, place⟩ := exists_method_of_inherits h below hm
  refine ⟨m', hm', same, place, fun keep => ?_⟩
  rcases place with ⟨rfl, -⟩ | ⟨e, between, puts, -⟩
  · rfl
  · exact keep e m' between puts same

/-! ### Dogs and puppies -/

namespace Kennel

/-- Dogs fetch a number. -/
def dog : ClassDecl :=
  ⟨"Dog", none, [], [],
    [⟨"fetch", [⟨"count", .mk "u64" false []⟩], some (.mk "u64" false [])⟩, ⟨"bark", [], none⟩]⟩

/-- Puppies are dogs that fetch something else. -/
def puppy : ClassDecl :=
  ⟨"Puppy", some "Dog", [], [],
    [⟨"fetch", [⟨"what", .mk "string" false []⟩], some (.mk "string" false [])⟩]⟩

/-- A class that overrides one of two methods, with another signature. -/
def document : Document where
  version := 1
  exports := [.ofClass dog, .ofClass puppy]
  imports := []

/-- The names that can be referred to in a package with this document. -/
def scope (package : PackageId) : Scope := ⟨package, document.exports, []⟩

/-- What dogs fetch. -/
def count : Callable := ⟨"fetch", "Dog" ++ "$" ++ "fetch", [⟨"count", .u64, 0⟩], some .u64⟩

/-- What puppies fetch. -/
def what : Callable := ⟨"fetch", "Puppy" ++ "$" ++ "fetch", [⟨"what", .string, 0⟩], some .string⟩

/-- What dogs and puppies do. -/
def bark : Callable := ⟨"bark", "Dog" ++ "$" ++ "bark", [], none⟩

theorem lineage_dog (package : PackageId) : (scope package).lineage dog = .ok [dog] := rfl

theorem lineage_puppy (package : PackageId) :
    (scope package).lineage puppy = .ok [dog, puppy] := rfl

section Resolved

variable (package : PackageId)

theorem type_u64 : (scope package).type (.mk "u64" false []) = .ok .u64 :=
  Scope.typeWith_primitive rfl

theorem type_string : (scope package).type (.mk "string" false []) = .ok .string :=
  Scope.typeWith_primitive rfl

theorem addMethods_dog : (scope package).addMethods [] dog = .ok [count, bark] := by
  refine bind_eq_ok.2 ⟨[count], bind_eq_ok.2 ⟨count, ?_, rfl⟩, rfl⟩
  refine bind_eq_ok.2 ⟨[("count", .u64)], ?_, bind_eq_ok.2 ⟨some .u64, ?_, rfl⟩⟩
  · exact mapM_eq_ok.2 (.cons (bind_eq_ok.2 ⟨_, type_u64 package, rfl⟩) .nil)
  · exact bind_eq_ok.2 ⟨_, type_u64 package, rfl⟩

theorem addMethods_puppy : (scope package).addMethods [count, bark] puppy = .ok [what, bark] := by
  refine bind_eq_ok.2 ⟨[what, bark], bind_eq_ok.2 ⟨what, ?_, rfl⟩, rfl⟩
  refine bind_eq_ok.2 ⟨[("what", .string)], ?_, bind_eq_ok.2 ⟨some .string, ?_, rfl⟩⟩
  · exact mapM_eq_ok.2 (.cons (bind_eq_ok.2 ⟨_, type_string package, rfl⟩) .nil)
  · exact bind_eq_ok.2 ⟨_, type_string package, rfl⟩

theorem exists_resolveClass_dog (idx : Nat) :
    ∃ c, (scope package).resolveClass idx dog = .ok c ∧ c.methods = [count, bark] := by
  refine ⟨_, bind_eq_ok.2 ⟨_, lineage_dog package, bind_eq_ok.2 ⟨[], rfl, bind_eq_ok.2
    ⟨[count, bark], ?_, bind_eq_ok.2 ⟨_, rfl, rfl⟩⟩⟩⟩, rfl⟩
  exact bind_eq_ok.2 ⟨_, addMethods_dog package, rfl⟩

theorem exists_resolveClass_puppy (idx : Nat) :
    ∃ c, (scope package).resolveClass idx puppy = .ok c ∧ c.methods = [what, bark] := by
  refine ⟨_, bind_eq_ok.2 ⟨_, lineage_puppy package, bind_eq_ok.2 ⟨[], rfl, bind_eq_ok.2
    ⟨[what, bark], ?_, bind_eq_ok.2 ⟨_, rfl, rfl⟩⟩⟩⟩, rfl⟩
  exact bind_eq_ok.2 ⟨_, addMethods_dog package, bind_eq_ok.2 ⟨_, addMethods_puppy package, rfl⟩⟩

/-- The document resolves, and both classes have a table with two methods. -/
theorem exists_resolve : ∃ a c q, resolve package document = .ok a ∧ a.Inherits c q ∧
    c.name = "Puppy" ∧ q.methods = [count, bark] ∧ c.methods = [what, bark] := by
  obtain ⟨q, dogs, barks⟩ := exists_resolveClass_dog package 0
  obtain ⟨c, puppies, barks'⟩ := exists_resolveClass_puppy package 1
  obtain ⟨⟨dogNamed, -⟩, -⟩ := Scope.wellFormed_resolveClass dogs
  obtain ⟨⟨named, parent⟩, -⟩ := Scope.wellFormed_resolveClass puppies
  refine ⟨⟨package, document, [.ofClass q, .ofClass c], []⟩, c, q, ?_, ?_, named, barks, barks'⟩
  · refine bind_eq_ok.2 ⟨scope package, rfl, bind_eq_ok.2 ⟨[.ofClass q, .ofClass c], ?_, rfl⟩⟩
    exact bind_eq_ok.2 ⟨_, bind_eq_ok.2 ⟨q, dogs, rfl⟩, bind_eq_ok.2 ⟨_, bind_eq_ok.2 ⟨_,
      bind_eq_ok.2 ⟨c, puppies, rfl⟩, rfl⟩, rfl⟩⟩
  · exact ⟨.tail _ (.head _), .head _, by rw [parent, dogNamed]; rfl⟩

end Resolved

end Kennel

/-- Puppies have a method at the index of one of dogs, with the same name and another signature. -/
theorem override_changes_signature : ∃ a c q, resolve Farm.home Kennel.document = .ok a ∧
    a.Inherits c q ∧ ∃ m m', q.methods[0]? = some m ∧ c.methods[0]? = some m' ∧ m'.name = m.name ∧
      m.signature = ([(.u64, 0)], some .u64) ∧ m'.signature = ([(.string, 0)], some .string) := by
  obtain ⟨a, c, q, resolved, inherits, -, dogs, puppies⟩ := Kennel.exists_resolve Farm.home
  refine ⟨a, c, q, resolved, inherits, Kennel.count, Kennel.what, ?_, ?_, rfl, rfl, rfl⟩
  · rw [dogs]
    rfl
  · rw [puppies]
    rfl

/-- Puppies bark like dogs. -/
theorem methods_inherited_or_overridden_kennel : ∃ a c q m,
    resolve Farm.home Kennel.document = .ok a ∧ a.Inherits c q ∧ q.methods[1]? = some Kennel.bark ∧
      c.methods[1]? = some m ∧ m.name = "bark" ∧ m.signature = Kennel.bark.signature ∧
        c.methodIndex? "bark" = some 1 := by
  obtain ⟨a, c, q, resolved, inherits, named, dogs, puppies⟩ := Kennel.exists_resolve Farm.home
  obtain ⟨entries, indices⟩ := methods_inherited_or_overridden resolved
  have bark : q.methods[1]? = some Kennel.bark := by rw [dogs]; rfl
  obtain ⟨m, found, same, -, keeps⟩ := entries c q (.single inherits) 1 Kennel.bark bark
  refine ⟨a, c, q, m, resolved, inherits, bark, found, same, keeps fun e r _ puts named => ?_,
    (indices c inherits.1 "bark" 1).2 ⟨m, found, same⟩⟩
  obtain ⟨d, exported, -, last, declared, callable⟩ := puts
  rw [(resolve_eq_ok resolved).2.1] at exported
  rw [named] at declared
  -- Only dogs declare the name, as it is in their table.
  simp only [Kennel.document, List.mem_cons, List.not_mem_nil, or_false, ExportDecl.ofClass.injEq]
    at exported
  rcases exported with rfl | rfl
  · cases declared
    cases callable
    rfl
  · cases declared

end JigLedger.Abi
