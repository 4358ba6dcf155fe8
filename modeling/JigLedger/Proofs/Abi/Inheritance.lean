import JigLedger.Proofs.Abi.Conformance
import JigLedger.Proofs.Abi.Layouts
import Mathlib.Data.List.Infix

/-!
# What a class inherits

A class is resolved like its parent, and then goes on with its own declaration: its fields are
placed behind those of the parent, its methods are put into the table of the parent, and what it
implements is added to what the parent conforms to. Code that was compiled against a class therefore
finds the same fields at the same offsets in the jigs of all classes that are derived from it.
-/

namespace JigLedger

namespace Layout

/-- Fields do not depend on those that are placed behind them. -/
theorem placeFrom_prefix (declared more : List (String × Ty)) (offset widest : UInt32) :
    (placeFrom offset widest declared).1 <+: (placeFrom offset widest (declared ++ more)).1 := by
  induction declared generalizing offset widest with
  | nil => exact List.nil_prefix
  | cons f rest ih =>
    obtain ⟨name, ty⟩ := f
    exact (List.prefix_cons_inj _).2 (ih _ _)

end Layout

namespace Abi

open Relation (ReflTransGen)

/-! ### One level -/

namespace Scope

variable {s : Scope} {d p : ClassDecl} {chain chain' : List ClassDecl}

/-- A class has one lineage. -/
theorem Lineage.unique (distinct : s.Distinct) (h : s.Lineage d chain) (h' : s.Lineage d chain') :
    chain = chain' := by
  induction h generalizing chain' with
  | root _ first =>
    cases h' with
    | root => rfl
    | derived _ parent _ => exact absurd (first.symm.trans parent.2) nofun
  | derived _ parent _ ih =>
    cases h' with
    | root _ first => exact absurd (first.symm.trans parent.2) nofun
    | derived _ parent' above =>
      obtain rfl := distinct.parent_eq parent parent'
      rw [ih above]

/-- The lineage of a class is that of its parent, and the class itself behind it. -/
theorem lineage_derived (distinct : s.Distinct) (exported : .ofClass d ∈ s.exports)
    (parent : s.Derives d p) (hd : s.lineage d = .ok chain) (hp : s.lineage p = .ok chain') :
    chain = chain' ++ [d] := by
  obtain ⟨own, -⟩ := lineage_eq_ok exported hd
  obtain ⟨above, -⟩ := lineage_eq_ok parent.1 hp
  have same := own.unique distinct (.derived exported parent above)
  rw [← List.reverse_reverse chain, same, List.reverse_cons, List.reverse_reverse]

/-- The fields of a lineage have different names, none of which has been seen. -/
theorem nodup_lineageFields {name : String} {seen : List String} {decls : List FieldDecl}
    {fields : List (String × Ty)} (h : s.lineageFields name seen decls = .ok fields) :
    (fields.map Prod.fst).Nodup ∧ ∀ f ∈ fields, f.1 ∉ seen := by
  induction decls generalizing seen fields with
  | nil =>
    cases h
    exact ⟨.nil, nofun⟩
  | cons f rest ih =>
    unfold lineageFields at h
    split at h
    · cases h
    case isFalse new =>
      obtain ⟨ty, -, h⟩ := bind_eq_ok.1 h
      obtain ⟨others, there, same⟩ := bind_eq_ok.1 h
      cases same
      obtain ⟨nodup, unseen⟩ := ih there
      refine ⟨List.nodup_cons.2 ⟨fun mem => ?_, nodup⟩,
        List.forall_mem_cons.2 ⟨new, fun g hg old => unseen g hg (.tail _ old)⟩⟩
      obtain ⟨g, hg, again⟩ := List.mem_map.1 mem
      exact unseen g hg (again ▸ .head _)

theorem length_lineageFields {name : String} {seen : List String} {decls : List FieldDecl}
    {fields : List (String × Ty)} (h : s.lineageFields name seen decls = .ok fields) :
    fields.length = decls.length := by
  induction decls generalizing seen fields with
  | nil =>
    cases h
    rfl
  | cons f rest ih =>
    unfold lineageFields at h
    split at h
    · cases h
    · obtain ⟨ty, -, h⟩ := bind_eq_ok.1 h
      obtain ⟨others, there, same⟩ := bind_eq_ok.1 h
      cases same
      rw [List.length_cons, List.length_cons, ih there]

/-- More fields leave the first ones as they are. -/
theorem exists_lineageFields_append {name name' : String} {seen : List String}
    {decls more : List FieldDecl} {fields inherited : List (String × Ty)}
    (h : s.lineageFields name seen (decls ++ more) = .ok fields)
    (h' : s.lineageFields name' seen decls = .ok inherited) : ∃ own, fields = inherited ++ own := by
  induction decls generalizing seen fields inherited with
  | nil =>
    cases h'
    exact ⟨fields, rfl⟩
  | cons f rest ih =>
    rw [List.cons_append] at h
    unfold lineageFields at h h'
    split at h
    · cases h
    case isFalse new =>
      rw [if_neg new] at h'
      obtain ⟨ty, typed, h⟩ := bind_eq_ok.1 h
      obtain ⟨ty', typed', h'⟩ := bind_eq_ok.1 h'
      rw [typed] at typed'
      cases typed'
      obtain ⟨others, there, same⟩ := bind_eq_ok.1 h
      obtain ⟨others', there', same'⟩ := bind_eq_ok.1 h'
      cases same
      cases same'
      obtain ⟨own, rfl⟩ := ih there there'
      exact ⟨own, rfl⟩

/-- A class continues another one with its own declaration. -/
structure Continues (s : Scope) (d : ClassDecl) (c q : Class) : Prop where
  fields : q.fields <+: c.fields
  methods : s.addMethods q.methods d = .ok c.methods
  conformance : s.addClass q.conformance d = .ok c.conformance

/-- The last item of a fold is taken after the others. -/
theorem foldlM_concat_eq_ok {α β ε : Type} {f : β → α → Except ε β} {items : List α} {a : α}
    {b middle result : β} (others : items.foldlM f b = .ok middle)
    (h : (items ++ [a]).foldlM f b = .ok result) : f middle a = .ok result := by
  rw [List.foldlM_append, others] at h
  obtain ⟨_, same, last⟩ := bind_eq_ok.1 h
  cases same
  obtain ⟨_, here, same⟩ := bind_eq_ok.1 last
  cases same
  exact here

/-- A class continues its parent. -/
theorem continues_of_derives (distinct : s.Distinct) (exported : .ofClass d ∈ s.exports)
    (parent : s.Derives d p) {i j : Nat} {c q : Class} (hc : s.resolveClass i d = .ok c)
    (hq : s.resolveClass j p = .ok q) : s.Continues d c q := by
  simp only [resolveClass, bind_eq_ok, pure, Except.pure, Except.ok.injEq] at hc hq
  obtain ⟨chain, above, fields, declared, methods, table, _, -, found, gathered, rfl⟩ := hc
  obtain ⟨chain', above', fields', declared', methods', table', _, -, found', gathered', rfl⟩ := hq
  obtain rfl := lineage_derived distinct exported parent above above'
  rw [List.flatMap_append] at declared
  obtain ⟨own, rfl⟩ := exists_lineageFields_append declared declared'
  exact ⟨Layout.placeFrom_prefix _ _ _ _, foldlM_concat_eq_ok table' table,
    foldlM_concat_eq_ok gathered' gathered⟩

end Scope

/-! ### Any number of levels -/

variable {package : PackageId} {doc : Document} {a : Abi} {c q : Class}

/-- A class has another one of the same package as its parent. -/
def Inherits (a : Abi) (c q : Class) : Prop :=
  c ∈ a.classes ∧ q ∈ a.classes ∧ c.parent = some q.name

/-- Each class comes from the declaration with its name. -/
theorem exists_resolveClass_of_mem (h : resolve package doc = .ok a) (hc : c ∈ a.classes) :
    ∃ decl : ClassDecl, .ofClass decl ∈ a.scope.exports ∧ c.name = decl.name ∧
      c.parent = decl.parent ∧ ∃ idx, a.scope.resolveClass idx decl = .ok c := by
  obtain ⟨idx, found⟩ := exists_classAt_of_mem hc
  obtain ⟨decl, declared, resolved⟩ := exists_resolveClass_of_classAt h found
  obtain ⟨⟨named, parent⟩, -⟩ := Scope.wellFormed_resolveClass resolved
  obtain ⟨-, rfl, -, -⟩ := resolve_eq_ok h
  exact ⟨decl, List.mem_of_getElem? declared, named, parent, idx, resolved⟩

/-- A class continues its parent with the declaration that has its name. -/
theorem Inherits.continues (h : resolve package doc = .ok a) (above : a.Inherits c q) :
    ∃ decl : ClassDecl, .ofClass decl ∈ a.scope.exports ∧ decl.name = c.name ∧
      a.scope.Continues decl c q := by
  obtain ⟨hc, hq, isParent⟩ := above
  obtain ⟨decl, exported, named, parent, _, resolved⟩ := exists_resolveClass_of_mem h hc
  obtain ⟨decl', exported', named', -, _, resolved'⟩ := exists_resolveClass_of_mem h hq
  obtain ⟨-, -, opened, -⟩ := resolve_eq_ok h
  obtain ⟨-, -, -, distinct⟩ := Scope.ofDocument_eq_ok opened
  refine ⟨decl, exported, named.symm, Scope.continues_of_derives distinct exported
    ⟨exported', ?_⟩ resolved resolved'⟩
  rw [← parent, isParent, named']

/-- What a class conforms to, all classes derived from it conform to. -/
theorem conformance_mono (h : resolve package doc = .ok a) (above : a.Inherits c q) (ref : ClassRef)
    (there : q.conformance.contains ref = true) : c.conformance.contains ref = true := by
  obtain ⟨decl, exported, -, continues⟩ := above.continues h
  obtain ⟨-, -, opened, -⟩ := resolve_eq_ok h
  obtain ⟨-, -, -, distinct⟩ := Scope.ofDocument_eq_ok opened
  exact (Scope.gathers_addClass distinct exported continues.conformance).kept ref there

/-- Along a chain of classes, what each class has from its parent it has from all its ancestors. -/
theorem inherited_of_step {R : Class → Class → Prop} (refl : ∀ c, R c c)
    (trans : ∀ {c q r}, R c q → R q r → R c r) (step : ∀ {c q}, a.Inherits c q → R c q)
    (below : ReflTransGen a.Inherits c q) : R c q := by
  induction below with
  | refl => exact refl c
  | tail _ last ih => exact trans ih (step last)

/-- The fields of a class have different names. -/
theorem nodup_fields (h : resolve package doc = .ok a) (hc : c ∈ a.classes) :
    (c.fields.map (·.name)).Nodup := by
  obtain ⟨decl, -, -, -, idx, resolved⟩ := exists_resolveClass_of_mem h hc
  simp only [Scope.resolveClass, bind_eq_ok, pure, Except.pure, Except.ok.injEq] at resolved
  obtain ⟨_, -, fields, declared, _, -, _, -, _, -, rfl⟩ := resolved
  have names := congrArg (List.map Prod.fst)
    (Layout.declared_placeFrom fields Scope.jigHeaderSize 1)
  rw [List.map_map] at names
  have nodup := (Scope.nodup_lineageFields declared).1
  rw [← names] at nodup
  exact nodup

/-- Every class has fields with different names, in a layout behind its header that is sound exactly
if it fits into 32 bits; so are the layouts of all objects, and those of arguments in blobs that
hold them. The fields of a class begin with those of all its ancestors, at the same offsets, and it
conforms to whatever they conform to. -/
theorem layouts_sound_inherited (h : resolve package doc = .ok a) :
    (∀ c ∈ a.classes, (c.fields.map (·.name)).Nodup ∧
      (Layout.Sound 4 c.fields c.size.toNat ↔ Layout.Fits 4 c.fields)) ∧
    (∀ name fields size, a.Mentions (.object name fields size) →
      (Layout.Sound 0 fields size.toNat ↔ Layout.Fits 0 fields)) ∧
    (∀ e ∈ a.exports, ∀ f ∈ e.callables, Layout.Fits 0 f.params →
      Layout.Sound 0 f.params (Ty.extent f.params).toNat) ∧
    ∀ c q, ReflTransGen a.Inherits c q → q.fields <+: c.fields ∧
      ∀ ref, q.conformance.contains ref = true → c.conformance.contains ref = true := by
  refine ⟨fun c hc => ⟨nodup_fields h hc, sound_class_iff_fits h hc⟩,
    fun name fields size mentioned => (mentioned.wellFormed h).sound_iff_fits,
    fun e he f hf fits => sound_params h he hf fits, fun c q below => ⟨?_, ?_⟩⟩
  · refine inherited_of_step (R := fun c q => q.fields <+: c.fields) (fun _ => List.prefix_rfl)
      (fun near far => far.trans near) (fun above => ?_) below
    obtain ⟨_, -, -, continues⟩ := above.continues h
    exact continues.fields
  · exact inherited_of_step (R := fun c q => ∀ ref, q.conformance.contains ref = true →
      c.conformance.contains ref = true) (fun _ _ => id)
      (fun near far ref there => near ref (far ref there)) (conformance_mono h) below

/-! ### Shepherds and farmers -/

/-- Farmers have the tags of shepherds, and land. -/
theorem Farm.length_fields_farmer {idx : Nat}
    (h : (Farm.scope package).resolveClass idx Farm.farmer = .ok c) : c.fields.length = 2 := by
  simp only [Scope.resolveClass, bind_eq_ok, pure, Except.pure, Except.ok.injEq] at h
  obtain ⟨lineage, above, fields, declared, _, -, _, -, _, -, rfl⟩ := h
  simp [Farm.scope, Farm.document, Farm.farmer, Scope.export?, ExportDecl.name, bind, Except.bind,
    Scope.lineage, Scope.ancestry, pure, Except.pure] at above
  subst above
  have placed : Layout.place Scope.jigHeaderSize fields = (_, _) := rfl
  exact (Layout.length_place placed).trans (Scope.length_lineageFields declared)

/-- Farmers continue shepherds, and their two fields are apart from each other. -/
theorem layouts_sound_inherited_farm : ∃ a c q, resolve Farm.home Farm.document = .ok a ∧
    a.classAt 4 = .ok c ∧ a.classAt 3 = .ok q ∧ a.Inherits c q ∧ q.fields <+: c.fields ∧
      (∀ ref, q.conformance.contains ref = true → c.conformance.contains ref = true) ∧
        (c.fields.map (·.name)).Nodup ∧ Layout.Sound 4 c.fields c.size.toNat := by
  obtain ⟨a, resolved⟩ := Farm.exists_resolve Farm.home
  obtain ⟨c, foundC, resolvedC⟩ := @exists_classAt _ _ _ 4 resolved _ rfl
  obtain ⟨q, foundQ, resolvedQ⟩ := @exists_classAt _ _ _ 3 resolved _ rfl
  have inherits : a.Inherits c q := by
    refine ⟨mem_classes_of_classAt foundC, mem_classes_of_classAt foundQ, ?_⟩
    rw [(Scope.wellFormed_resolveClass resolvedC).1.2,
      (Scope.wellFormed_resolveClass resolvedQ).1.1]
    rfl
  obtain ⟨classes, -, -, inherited⟩ := layouts_sound_inherited resolved
  obtain ⟨sub, conforms⟩ := inherited c q (.single inherits)
  obtain ⟨nodup, sound⟩ := classes c (mem_classes_of_classAt foundC)
  have opened := (resolve_eq_ok resolved).2.2.1
  rw [Farm.ofDocument_document] at opened
  rw [← Except.ok.inj opened] at resolvedC
  have few := Farm.length_fields_farmer resolvedC
  refine ⟨a, c, q, resolved, foundC, foundQ, inherits, sub, conforms, nodup, sound.2 ?_⟩
  exact Layout.fits_of_length (by rw [few]; decide)

end Abi

end JigLedger
