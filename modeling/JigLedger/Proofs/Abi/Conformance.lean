import JigLedger.Proofs.Abi.WellFormed

/-!
# What the jigs of a class are instances of

The conformance set of a class is found by one search that goes from class to parent, and from the
interfaces that each class implements to all that these extend. The search passes over what it has
found before, which may be a class or an interface of another part of the lineage. What is passed
over has been dealt with: the parents of everything in the set are in the set too, or are pending.
-/

namespace JigLedger.Abi

open Relation (ReflTransGen)

namespace Scope

variable {s : Scope} {refs refs' : List ClassRef} {names names' rest pending : List String}
  {found next result : RefSet} {name i j : String} {ref : ClassRef}

/-! ### Sets that grow -/

/-- The set holds the reference of an interface. -/
def Finds (s : Scope) (found : RefSet) (name : String) : Prop :=
  ∃ ref, s.interfaceRef name = .ok ref ∧ found.contains ref = true

/-- An interface is reached from one of these names. -/
def Reached (s : Scope) (names : List String) (ref : ClassRef) : Prop :=
  ∃ i ∈ names, ReflTransGen s.Extends i ref.name ∧ s.interfaceRef ref.name = .ok ref

/-- The set holds what its interfaces extend, apart from what is pending. -/
def Closed (s : Scope) (pending : List String) (found : RefSet) : Prop :=
  ∀ ref, found.contains ref = true → ∀ j, s.Extends ref.name j → j ∈ pending ∨ s.Finds found j

/-- A set has grown by some references, and by the interfaces with some names and everything that
is reached from them. -/
structure Gathers (s : Scope) (refs : List ClassRef) (names : List String)
    (found result : RefSet) : Prop where
  kept : ∀ ref, found.contains ref = true → result.contains ref = true
  added : ∀ ref ∈ refs, result.contains ref = true
  listed : ∀ i ∈ names, s.Finds result i
  only : ∀ ref, result.contains ref = true →
    found.contains ref = true ∨ ref ∈ refs ∨ s.Reached names ref
  closed : ∀ pending, s.Closed (names ++ pending) found → s.Closed pending result

theorem contains_insert_iff {other : ClassRef} :
    (found.insert ref).contains other = true ↔ ref = other ∨ found.contains other = true := by
  simp [Std.ExtTreeSet.contains_insert]

theorem Finds.mono (h : s.Finds found i)
    (kept : ∀ ref, found.contains ref = true → result.contains ref = true) : s.Finds result i := by
  obtain ⟨ref, named, there⟩ := h
  exact ⟨ref, named, kept ref there⟩

namespace Gathers

theorem refl (s : Scope) (found : RefSet) : s.Gathers [] [] found found where
  kept _ := id
  added := nofun
  listed := nofun
  only _ := .inl
  closed _ := id

theorem trans (h : s.Gathers refs names found next) (h' : s.Gathers refs' names' next result) :
    s.Gathers (refs ++ refs') (names ++ names') found result where
  kept ref there := h'.kept ref (h.kept ref there)
  added := List.forall_mem_append.2 ⟨fun ref mem => h'.kept ref (h.added ref mem), h'.added⟩
  listed := List.forall_mem_append.2 ⟨fun i mem => (h.listed i mem).mono h'.kept, h'.listed⟩
  only ref there := by
    rcases h'.only ref there with there | mem | ⟨i, hi, way⟩
    · rcases h.only ref there with there | mem | ⟨i, hi, way⟩
      · exact .inl there
      · exact .inr (.inl (List.mem_append_left _ mem))
      · exact .inr (.inr ⟨i, List.mem_append_left _ hi, way⟩)
    · exact .inr (.inl (List.mem_append_right _ mem))
    · exact .inr (.inr ⟨i, List.mem_append_right _ hi, way⟩)
  closed pending closed := h'.closed pending (h.closed _ (List.append_assoc .. ▸ closed))

/-- Something that extends nothing is added. -/
theorem insert (found : RefSet) (plain : ∀ j, ¬ s.Extends ref.name j) :
    s.Gathers [ref] [] found (found.insert ref) where
  kept _ there := contains_insert_iff.2 (.inr there)
  added _ mem := contains_insert_iff.2 (.inl (List.mem_singleton.1 mem).symm)
  listed := nofun
  only other there := by
    rcases contains_insert_iff.1 there with rfl | there
    · exact .inr (.inl (.head _))
    · exact .inl there
  closed pending closed other there j above := by
    rcases contains_insert_iff.1 there with rfl | there
    · exact absurd above (plain j)
    · exact (closed other there j above).imp_right
        (Finds.mono · fun _ there => contains_insert_iff.2 (.inr there))

/-- An interface that has been found is passed over. -/
theorem known (named : s.interfaceRef name = .ok ref) (old : found.contains ref = true)
    (h : s.Gathers refs rest found result) : s.Gathers refs (name :: rest) found result where
  kept := h.kept
  added := h.added
  listed := List.forall_mem_cons.2 ⟨⟨ref, named, h.kept ref old⟩, h.listed⟩
  only other there := by
    rcases h.only other there with there | mem | ⟨i, hi, way⟩
    · exact .inl there
    · exact .inr (.inl mem)
    · exact .inr (.inr ⟨i, .tail _ hi, way⟩)
  closed pending closed := by
    refine h.closed pending fun other there j above => ?_
    rcases closed other there j above with mem | finds
    · rcases List.mem_cons.1 mem with rfl | mem
      · exact .inr ⟨ref, named, old⟩
      · exact .inl mem
    · exact .inr finds

/-- An interface is added, and what it extends is gathered with the rest. -/
theorem expand (distinct : s.Distinct) (named : s.interfaceRef name = .ok ref)
    (h : s.Gathers refs (s.parentsOf name ++ rest) (found.insert ref) result) :
    s.Gathers refs (name :: rest) found result where
  kept other there := h.kept other (contains_insert_iff.2 (.inr there))
  added := h.added
  listed := List.forall_mem_cons.2
    ⟨⟨ref, named, h.kept ref (contains_insert_iff.2 (.inl rfl))⟩,
      (List.forall_mem_append.1 h.listed).2⟩
  only other there := by
    have own : ref.name = name := (declares_of_interfaceRef named).1
    rcases h.only other there with there | mem | ⟨i, hi, way, here⟩
    · rcases contains_insert_iff.1 there with rfl | there
      · exact .inr (.inr ⟨name, .head _, own ▸ .refl, own ▸ named⟩)
      · exact .inl there
    · exact .inr (.inl mem)
    · rcases List.mem_append.1 hi with parent | mem
      · exact .inr (.inr ⟨name, .head _, .head (distinct.mem_parentsOf.1 parent) way, here⟩)
      · exact .inr (.inr ⟨i, .tail _ mem, way, here⟩)
  closed pending closed := by
    refine h.closed pending fun other there j above => ?_
    rw [List.append_assoc]
    rcases contains_insert_iff.1 there with rfl | there
    · rw [(declares_of_interfaceRef named).1, ← distinct.mem_parentsOf] at above
      exact .inl (List.mem_append_left _ above)
    · rcases closed other there j above with mem | finds
      · rcases List.mem_cons.1 mem with rfl | mem
        · exact .inr ⟨ref, named, contains_insert_iff.2 (.inl rfl)⟩
        · exact .inl (List.mem_append_right _ mem)
      · exact .inr (finds.mono fun _ there => contains_insert_iff.2 (.inr there))

/-- Items gather one after the other. -/
theorem foldlM {α : Type} {add : RefSet → α → Except AbiError RefSet} {items : List α}
    {ownRefs : α → List ClassRef} {ownNames : α → List String}
    (step : ∀ a ∈ items, ∀ found next, add found a = .ok next →
      s.Gathers (ownRefs a) (ownNames a) found next)
    (done : items.foldlM add found = .ok result) :
    s.Gathers (items.flatMap ownRefs) (items.flatMap ownNames) found result := by
  refine foldlM_induction (P := fun taken result =>
    s.Gathers (taken.flatMap ownRefs) (taken.flatMap ownNames) found result) (refl s found) ?_ done
  intro taken a ha next next' gathered more
  simpa using gathered.trans (step a ha next next' more)

/-- If nothing has been found at first, the set holds these references and what is reached. -/
theorem finds_of_reached (h : s.Gathers refs names ∅ result) (hi : i ∈ names)
    (way : ReflTransGen s.Extends i j) : s.Finds result j := by
  have closed : s.Closed [] result := h.closed [] fun _ there => by simp at there
  induction way with
  | refl => exact h.listed i hi
  | tail _ last ih =>
    obtain ⟨ref, named, there⟩ := ih
    rw [← (declares_of_interfaceRef named).1] at last
    exact (closed ref there _ last).resolve_left List.not_mem_nil

theorem contains_iff (h : s.Gathers refs names ∅ result) :
    result.contains ref = true ↔ ref ∈ refs ∨ s.Reached names ref := by
  constructor
  · intro there
    exact (h.only ref there).resolve_left (by simp)
  · rintro (mem | ⟨i, hi, way, named⟩)
    · exact h.added ref mem
    · obtain ⟨other, same, there⟩ := h.finds_of_reached hi way
      rw [named] at same
      cases same
      exact there

end Gathers

/-! ### The search -/

section Search

variable (distinct : s.Distinct)

include distinct

theorem gathers_closeOver {unexpanded : List String} (accounted : s.Accounted unexpanded found)
    (h : s.closeOver unexpanded pending found = .ok result) :
    s.Gathers [] pending found result := by
  fun_induction closeOver s unexpanded pending found with
  | case1 =>
    cases h
    exact .refl s _
  | case2 unexpanded found name rest known expanded passed =>
    obtain ⟨ref, named, h⟩ := bind_eq_ok.1 h
    split at h
    case isTrue old => exact (known accounted h).known named old
    case isFalse new =>
      split at h
      case isTrue here =>
        exact .expand distinct named (expanded ref here (accounted.expand named) h)
      case isFalse missing =>
        -- What is not listed any more has been found when it was expanded, or it extends nothing.
        have none := accounted.parentsOf_eq_nil named new missing
        exact .expand distinct named (none ▸ passed ref (accounted.insert ref) h)

/-- Classes do not extend what interfaces extend, since no interface has the name of a class. -/
theorem Distinct.not_extends_of_class {d : ClassDecl} (exported : .ofClass d ∈ s.exports)
    (j : String) : ¬ s.Extends d.name j := by
  rintro ⟨i, interface, same, -⟩
  cases distinct.export_eq interface exported same

theorem gathers_addClass {d : ClassDecl} (exported : .ofClass d ∈ s.exports)
    (h : s.addClass found d = .ok result) :
    s.Gathers [⟨s.package, d.name⟩] d.implements found result := by
  have own : s.Gathers [⟨s.package, d.name⟩] [] found (found.insert ⟨s.package, d.name⟩) :=
    .insert found (distinct.not_extends_of_class exported)
  have more : s.Gathers (d.implements.flatMap fun _ => []) (d.implements.flatMap fun i => [i])
      (found.insert ⟨s.package, d.name⟩) result :=
    .foldlM (fun i _ found _ => gathers_closeOver distinct (s.accounted_exports found)) h
  rw [List.flatMap_singleton', List.flatMap_eq_nil_iff.2 fun _ _ => rfl] at more
  exact own.trans more

/-- The conformance set of a class that is resolved is gathered from its lineage. -/
theorem gathers_resolveClass {exportIdx : Nat} {d : ClassDecl} {cls : Class}
    (exported : .ofClass d ∈ s.exports) (h : s.resolveClass exportIdx d = .ok cls) :
    ∃ lineage : List ClassDecl, (∀ c, c ∈ lineage ↔ ReflTransGen s.Derives d c) ∧
      s.Gathers (lineage.flatMap fun c => [⟨s.package, c.name⟩])
        (lineage.flatMap (·.implements)) ∅ cls.conformance := by
  simp only [resolveClass, bind_eq_ok, pure, Except.pure, Except.ok.injEq] at h
  obtain ⟨chain, above, _, -, _, -, _, -, conformance, gathered, rfl⟩ := h
  obtain ⟨lineage, -⟩ := lineage_eq_ok exported above
  refine ⟨chain, fun c => ?_, .foldlM (fun c hc found next => ?_) gathered⟩
  · rw [← lineage.mem_iff distinct, List.mem_reverse]
  · exact gathers_addClass distinct (lineage.exported c (List.mem_reverse.2 hc))

end Search

end Scope

/-! ### Resolved ABIs -/

/-- The conformance set of an exported class consists of the class itself, its ancestors, the
interfaces that these implement and all that local interfaces among them extend, each of which has
one reference. -/
theorem conformance_exact {package : PackageId} {d : Document} {a : Abi}
    (h : resolve package d = .ok a) {idx : Nat} {decl : ClassDecl}
    (exported : d.exports[idx]? = some (.ofClass decl)) :
    ∃ cls, a.classAt idx = .ok cls ∧ cls.ref = ⟨package, decl.name⟩ ∧
      (∀ ref, cls.conformance.contains ref = true ↔
        (∃ c, ReflTransGen a.scope.Derives decl c ∧ ref = ⟨package, c.name⟩) ∨
          ∃ c i, ReflTransGen a.scope.Derives decl c ∧ i ∈ c.implements ∧
            ReflTransGen a.scope.Extends i ref.name ∧ a.scope.Declares .ofInterface ref) ∧
      ∀ c i j, ReflTransGen a.scope.Derives decl c → i ∈ c.implements →
        ReflTransGen a.scope.Extends i j →
          ∃! ref : ClassRef, ref.name = j ∧ a.scope.Declares .ofInterface ref := by
  obtain ⟨cls, found, resolved⟩ := exists_classAt h exported
  obtain ⟨rfl, rfl, opened, -⟩ := resolve_eq_ok h
  obtain ⟨-, -, -, distinct⟩ := Scope.ofDocument_eq_ok opened
  obtain ⟨lineage, mem_iff, gathered⟩ :=
    Scope.gathers_resolveClass distinct (List.mem_of_getElem? exported) resolved
  refine ⟨cls, found, Scope.ref_resolveClass resolved, fun ref => ?_,
    fun c i j ancestor implemented way => ?_⟩
  · simp only [gathered.contains_iff, Scope.Reached, distinct.interfaceRef_eq_ok, true_and,
      List.mem_flatMap, List.mem_singleton, mem_iff]
    constructor
    · rintro (⟨c, ancestor, rfl⟩ | ⟨i, ⟨c, ancestor, implemented⟩, way, declared⟩)
      · exact .inl ⟨c, ancestor, rfl⟩
      · exact .inr ⟨c, i, ancestor, implemented, way, declared⟩
    · rintro (⟨c, ancestor, rfl⟩ | ⟨c, i, ancestor, implemented, way, declared⟩)
      · exact .inl ⟨c, ancestor, rfl⟩
      · exact .inr ⟨i, ⟨c, ancestor, implemented⟩, way, declared⟩
  · have hi : i ∈ lineage.flatMap (·.implements) :=
      List.mem_flatMap.2 ⟨c, (mem_iff c).2 ancestor, implemented⟩
    obtain ⟨ref, named, -⟩ := gathered.finds_of_reached hi way
    refine ⟨ref, distinct.interfaceRef_eq_ok.1 named, fun other declared => ?_⟩
    rw [distinct.interfaceRef_eq_ok.2 declared] at named
    exact Except.ok.inj named

/-- Farmers are instances of the imported interface, which is reached through the circle of the
local ones, and of nothing that is not a class or an interface. -/
theorem conformance_exact_farmer : ∃ a cls, resolve Farm.home Farm.document = .ok a ∧
    a.classAt 4 = .ok cls ∧ cls.conformance.contains ⟨Farm.elsewhere, "Marked"⟩ = true ∧
      ¬ cls.conformance.contains ⟨Farm.home, "Tag"⟩ = true := by
  obtain ⟨a, resolved⟩ := Farm.exists_resolve Farm.home
  have declared : Farm.document.exports[4]? = some (.ofClass Farm.farmer) := rfl
  obtain ⟨cls, found, -, consists, -⟩ := conformance_exact resolved declared
  have opened := (resolve_eq_ok resolved).2.2.1
  rw [Farm.ofDocument_document] at opened
  rw [← Except.ok.inj opened] at consists
  refine ⟨a, cls, resolved, found, ?_, ?_⟩
  · refine (consists _).2 (.inr ⟨Farm.farmer, "Named", .refl, .head _, ?_, ?_⟩)
    · exact .head ⟨_, .head _, rfl, .head _⟩
        (.single ⟨_, .tail _ (.head _), rfl, .tail _ (.head _)⟩)
    · exact .inr ⟨_, .head _, rfl, rfl, rfl⟩
  · rw [consists]
    rintro (⟨c, ancestor, same⟩ | ⟨c, i, -, -, -, declared⟩)
    · rcases ancestor.cases_tail with rfl | ⟨_, -, exported, -⟩
      · simp [Farm.farmer] at same
      · simp [Farm.scope, Farm.document, Farm.farmer] at exported
        rcases exported with rfl | rfl <;> simp at same
    · simp [Scope.Declares, Farm.scope, Farm.document, ExportDecl.kind?, ExportDecl.name]
        at declared

end JigLedger.Abi
