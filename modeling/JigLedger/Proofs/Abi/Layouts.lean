import Mathlib
import JigLedger.Proofs.Abi.WellFormed
import JigLedger.Proofs.Value.Room
import JigLedger.Proofs.Value.Untrusted

/-!
# Layouts are sound

Fields that are placed stand at multiples of their sizes, apart from each other and within the size
of the whole, exactly if this size fits into 32 bits, the padding included. Otherwise some offset or
end, or the size itself, begins again at zero. The layouts of an ABI are those of its classes, of
the objects in everything that can be stored, passed or returned, and of its argument lists.
-/

namespace JigLedger

namespace Layout

/-- Fields stand behind the start, aligned, apart from each other, and they end within a size. -/
structure Sound (start : Nat) (fields : List Field) (size : Nat) : Prop where
  above : ∀ f ∈ fields, start ≤ f.offset.toNat
  aligned : ∀ f ∈ fields, f.ty.size.toNat ∣ f.offset.toNat
  apart : fields.Pairwise fun f g =>
    Disjoint (span f.offset.toNat f.ty.size.toNat) (span g.offset.toNat g.ty.size.toNat)
  within : ∀ f ∈ fields, f.offset.toNat + f.ty.size.toNat ≤ size

/-- The size of fields with all padding is below `2³²`. -/
def Fits (start : Nat) (fields : List Field) : Prop := room start 1 fields < UInt32.size

/-- Fewer than `2²⁸` fields fit. -/
theorem fits_of_length {start : Nat} {fields : List Field}
    (few : start + 16 * fields.length + 8 ≤ UInt32.size) : Fits start fields := by
  suffices ∀ offset widest, IsAlignment widest →
      room offset widest.toNat fields < offset + 16 * fields.length + 8 from
    Nat.lt_of_lt_of_le (this start 1 (.inl rfl)) few
  clear few
  induction fields with
  | nil => exact fun offset widest hw => (le_roundUp hw.toNat).2
  | cons f fields ih =>
    intro offset widest hw
    have sized := isAlignment_size f.ty
    have least := sized.le
    have near := (@le_roundUp offset _ sized.toNat).2
    have rest := ih (roundUp offset f.ty.size.toNat + f.ty.size.toNat) _ (hw.max sized)
    rw [toNat_max] at rest
    rw [room, List.length_cons]
    omega

variable {start offset widest size finish most : UInt32} {declared : List (String × Ty)}
  {fields placed : List Field}

/-! ### Alignment -/

/-- Rounding up gives a multiple of the alignment, also where it begins again at zero. -/
theorem dvd_alignUp {align : UInt32} (h : IsAlignment align) :
    align.toNat ∣ (alignUp offset align).toNat := by
  rcases h with rfl | rfl | rfl | rfl
  · exact one_dvd _
  all_goals
    rw [alignUp, if_neg (by decide), UInt32.toNat_mul]
    exact (Nat.dvd_mod_iff (by decide)).2 (Nat.dvd_mul_left _ _)

/-- Rounding up beyond `2³²` begins again at zero. -/
theorem alignUp_eq_zero {align : UInt32} (h : IsAlignment align)
    (far : UInt32.size ≤ roundUp offset.toNat align.toNat) : alignUp offset align = 0 := by
  have small := offset.toNat_lt
  rw [UInt32.size, roundUp] at far
  rw [← UInt32.toNat_inj]
  rcases h with rfl | rfl | rfl | rfl
  · simp only [UInt32.reduceToNat] at far
    omega
  all_goals
    rw [alignUp, if_neg (by decide)]
    simp only [UInt32.reduceToNat] at far ⊢
    split
    case isTrue even =>
      have even := congrArg UInt32.toNat even
      simp only [UInt32.toNat_mod, UInt32.reduceToNat] at even
      omega
    case isFalse odd =>
      simp only [UInt32.toNat_add, UInt32.toNat_mul, UInt32.toNat_div, UInt32.reduceToNat]
      omega

/-- Fields that are placed stand at multiples of their sizes. -/
theorem dvd_of_mem_placeFrom (h : placeFrom offset widest declared = (placed, finish, most)) :
    ∀ f ∈ placed, f.ty.size.toNat ∣ f.offset.toNat := by
  induction declared generalizing offset widest placed with
  | nil =>
    cases h
    exact nofun
  | cons f rest ih =>
    obtain ⟨name, ty⟩ := f
    obtain ⟨others, behind, rfl⟩ := exists_of_placeFrom_cons h
    exact List.forall_mem_cons.2 ⟨dvd_alignUp (isAlignment_size ty), ih behind⟩

/-! ### Fields that stand one behind the other -/

theorem Spaced.apart {first last : Nat} (h : Spaced first fields last) :
    fields.Pairwise fun f g =>
      Disjoint (span f.offset.toNat f.ty.size.toNat) (span g.offset.toNat g.ty.size.toNat) := by
  induction fields generalizing first with
  | nil => exact .nil
  | cons f fields ih =>
    exact .cons (fun g hg => disjoint_span (h.2.bounds g hg).1) (ih h.2)

/-- A layout that fits is sound. -/
theorem sound_of_fits (h : place start declared = (fields, size)) (fits : Fits start.toNat fields) :
    Sound start.toNat fields size.toNat := by
  have spaced := (exact_place h fits).1
  obtain ⟨finish, most, placed, rfl⟩ := exists_placeFrom_of_place h
  exact ⟨fun f hf => (spaced.bounds f hf).1, dvd_of_mem_placeFrom placed, spaced.apart,
    fun f hf => (spaced.bounds f hf).2⟩

/-! ### Layouts that begin again -/

/-- Behind an offset that is not zero, a layout that does not fit begins again at zero: its size is
zero, or a field stands there, or a field ends beyond all offsets. -/
theorem begins_again (hw : IsAlignment widest) (pos : 0 < offset.toNat)
    (h : placeFrom offset widest declared = (placed, finish, most))
    (far : UInt32.size ≤ room offset.toNat widest.toNat placed) :
    alignUp finish most = 0 ∨
      ∃ f ∈ placed, f.offset = 0 ∨ UInt32.size ≤ f.offset.toNat + f.ty.size.toNat := by
  induction declared generalizing offset widest placed with
  | nil =>
    cases h
    exact .inl (alignUp_eq_zero hw far)
  | cons f rest ih =>
    obtain ⟨name, ty⟩ := f
    obtain ⟨others, behind, rfl⟩ := exists_of_placeFrom_cons h
    have sized := isAlignment_size ty
    rcases Nat.lt_or_ge (roundUp offset.toNat ty.size.toNat) UInt32.size with near | wrapped
    case inr => exact .inr ⟨_, .head _, .inl (alignUp_eq_zero sized wrapped)⟩
    have begins : (alignUp offset ty.align).toNat = roundUp offset.toNat ty.size.toNat :=
      toNat_alignUp sized near
    rcases Nat.lt_or_ge ((alignUp offset ty.align).toNat + ty.size.toNat) UInt32.size
      with inside | outside
    case inr => exact .inr ⟨_, .head _, .inr outside⟩
    have next := toNat_add_of_lt inside
    have widening : (max widest ty.align).toNat = max widest.toNat ty.size.toNat := toNat_max _ _
    have least := sized.le.1
    -- Neither the offset nor the end of the first field has begun again, so one of the rest has.
    have wide : IsAlignment (max widest ty.align) := hw.max sized
    have rest := ih wide (by omega) behind (by rw [next, begins, widening]; exact far)
    exact rest.imp_right fun ⟨g, hg, again⟩ => ⟨g, .tail _ hg, again⟩

/-- The only thing that can begin again at zero in a sound layout is the offset of a field. -/
theorem Sound.exists_at_zero {first : Nat} (h : Sound first fields size.toNat) (some : fields ≠ [])
    (sub : placed ⊆ fields) (again : size = 0 ∨
      ∃ f ∈ placed, f.offset = 0 ∨ UInt32.size ≤ f.offset.toNat + f.ty.size.toNat) :
    ∃ f ∈ placed, f.offset = 0 := by
  rcases again with rfl | ⟨f, hf, zero | beyond⟩
  · obtain ⟨f, hf⟩ := List.exists_mem_of_ne_nil _ some
    have least := (isAlignment_size f.ty).le.1
    have within : _ ≤ 0 := h.within f hf
    omega
  · exact ⟨f, hf, zero⟩
  · exact absurd (Nat.lt_of_le_of_lt (h.within f (sub hf)) size.toNat_lt) (Nat.not_lt.2 beyond)

/-- A sound layout fits. -/
theorem fits_of_sound (h : place start declared = (fields, size))
    (sound : Sound start.toNat fields size.toNat) : Fits start.toNat fields := by
  obtain ⟨finish, most, placed, rfl⟩ := exists_placeFrom_of_place h
  by_contra far
  replace far := Nat.le_of_not_lt far
  cases declared with
  | nil =>
    cases placed
    have small := start.toNat_lt
    rw [room, roundUp, UInt32.size] at far
    omega
  | cons f rest =>
    obtain ⟨name, ty⟩ := f
    obtain ⟨others, behind, rfl⟩ := exists_of_placeFrom_cons placed
    rcases Nat.eq_zero_or_pos start.toNat with zero | pos
    case inr =>
      obtain ⟨g, hg, again⟩ := sound.exists_at_zero (List.cons_ne_nil _ _) (List.Subset.refl _)
        (begins_again (.inl rfl) pos placed far)
      have above := sound.above g hg
      rw [again] at above
      exact Nat.not_lt.2 above pos
    -- The first field stands at zero, and behind it is an offset that is not zero.
    obtain rfl : start = 0 := UInt32.toNat_inj.1 zero
    have sized := isAlignment_size ty
    have least := sized.le.1
    have first : alignUp 0 ty.align = 0 := sized.alignUp_zero
    have widening : (max 1 ty.align).toNat = max 1 ty.size.toNat := toNat_max _ _
    have start : roundUp 0 ty.size.toNat = 0 := by
      rw [roundUp, Nat.div_eq_of_lt (by omega), Nat.zero_mul]
    rw [first, UInt32.zero_add] at behind
    replace far : UInt32.size ≤ room (roundUp 0 ty.size.toNat + ty.size.toNat)
      (max 1 ty.size.toNat) others := far
    rw [start, Nat.zero_add, ← widening] at far
    obtain ⟨g, hg, again⟩ := sound.exists_at_zero (List.cons_ne_nil _ _)
      (List.subset_cons_self _ _)
      (begins_again (IsAlignment.max (.inl rfl) sized) least behind far)
    have apart := List.rel_of_pairwise_cons sound.apart hg
    rw [first, again] at apart
    have more := (isAlignment_size g.ty).le.1
    exact Set.disjoint_left.1 apart (mem_span.2 ⟨Nat.le_refl 0, Nat.add_pos_right 0 least⟩)
      (mem_span.2 ⟨Nat.le_refl 0, Nat.add_pos_right 0 more⟩)

/-- A layout is sound exactly if it fits into 32 bits. -/
theorem sound_iff_fits (h : place start declared = (fields, size)) :
    Sound start.toNat fields size.toNat ↔ Fits start.toNat fields :=
  ⟨fits_of_sound h, sound_of_fits h⟩

end Layout

/-! ### The parts of a type -/

namespace Ty

/-- A type is a part of another one, or the same. -/
inductive Occurs (t : Ty) : Ty → Prop
  | self : Occurs t t
  | array {item : Ty} (h : Occurs t item) : Occurs t (.array item)
  | key {k v : Ty} (h : Occurs t k) : Occurs t (.map k v)
  | value {k v : Ty} (h : Occurs t v) : Occurs t (.map k v)
  | nullable {inner : Ty} (h : Occurs t inner) : Occurs t (.nullable inner)
  | field {name : String} {fields : List Field} {size : UInt32} {f : Field} (mem : f ∈ fields)
    (h : Occurs t f.ty) : Occurs t (.object name fields size)

/-- The parts of well-formed types are well-formed. -/
theorem Occurs.wellFormed {known : JigTy → Prop} {t u : Ty} (part : t.Occurs u)
    (h : u.WellFormed known) : t.WellFormed known := by
  induction part with
  | self => exact h
  | array _ ih =>
    cases h with
    | scalar plain => cases plain
    | array h => exact ih h
  | key _ ih =>
    cases h with
    | scalar plain => cases plain
    | map key _ =>
      rcases key with plain | rfl
      · exact ih (.scalar plain)
      · exact ih .string
  | value _ ih =>
    cases h with
    | scalar plain => cases plain
    | map _ h => exact ih h
  | nullable _ ih =>
    cases h with
    | scalar plain => cases plain
    | nullable _ h => exact ih h
  | field mem _ ih =>
    cases h with
    | scalar plain => cases plain
    | object _ h => exact ih (h _ mem)

/-- The layout of an object that is well-formed is sound exactly if it fits. -/
theorem WellFormed.sound_iff_fits {known : JigTy → Prop} {name : String} {fields : List Field}
    {size : UInt32} (h : (Ty.object name fields size).WellFormed known) :
    Layout.Sound 0 fields size.toNat ↔ Layout.Fits 0 fields := by
  cases h with
  | scalar plain => cases plain
  | object laid _ => exact Layout.sound_iff_fits laid

/-- A type is laid out if all objects in it fit. -/
theorem Proper.laid_of_fits {t : Ty} (h : t.Proper)
    (fits : ∀ name fields size, (Ty.object name fields size).Occurs t → Layout.Fits 0 fields) :
    t.Laid := by
  induction h with
  | leaf plain => exact .leaf plain
  | array _ ih => exact .array (ih fun _ _ _ part => fits _ _ _ (.array part))
  | map plain _ ih => exact .map plain (ih fun _ _ _ part => fits _ _ _ (.value part))
  | nullable _ _ ih => exact .nullable (ih fun _ _ _ part => fits _ _ _ (.nullable part))
  | object declared _ ih =>
    obtain ⟨declared, placed⟩ := declared
    have spaced := (Layout.exact_place placed (fits _ _ _ .self)).1
    refine .object spaced fun f mem => ?_
    exact ih f mem fun _ _ _ part => fits _ _ _ (.field mem part)

end Ty

/-! ### The layouts of an ABI -/

namespace Abi

variable {package : PackageId} {d : Document} {a : Abi}

/-- What an export runs: a constructor and methods, or a function. -/
def Export.callables : Export → List Callable
  | .ofClass c => c.constructor :: c.methods
  | .ofFunction f => [f]
  | .ofInterface _ | .object => []

/-- A type is part of what an export stores, takes or returns, or of an object that is declared. -/
def Mentions (a : Abi) (t : Ty) : Prop :=
  (∃ e ∈ a.exports, ∃ u ∈ e.types, t.Occurs u) ∨
    ∃ decl, .ofObject decl ∈ a.document.exports ∧ ∃ u, a.scope.object decl = .ok u ∧ t.Occurs u

/-- All types that an ABI mentions are well-formed. -/
theorem Mentions.wellFormed (h : resolve package d = .ok a) {t : Ty} (mentioned : a.Mentions t) :
    t.WellFormed a.scope.Knows := by
  have formed := wellFormed_of_resolve h
  rcases mentioned with ⟨e, he, u, hu, part⟩ | ⟨decl, declared, u, typed, part⟩
  · exact part.wellFormed (formed.types e he u hu)
  · obtain ⟨fields, size, same, object⟩ := formed.objects decl declared
    rw [same] at typed
    cases typed
    exact part.wellFormed object

namespace Scope

variable {s : Scope}

/-- Every method in a table has been declared. -/
theorem exists_callable_methods {lineage : List ClassDecl} {table : List Callable}
    (h : lineage.foldlM s.addMethods [] = .ok table) :
    ∀ c ∈ table, ∃ m exportName, s.callable m exportName = .ok c := by
  refine foldlM_induction
    (P := fun _ table => ∀ c ∈ table, ∃ m exportName, s.callable m exportName = .ok c)
    (List.forall_mem_nil _) (fun _ d _ table table' known added => ?_) h
  refine foldlM_induction
    (P := fun _ table => ∀ c ∈ table, ∃ m exportName, s.callable m exportName = .ok c) known
    (fun _ m _ table table' known put => ?_) added
  obtain ⟨c, resolved, same⟩ := bind_eq_ok.1 put
  cases same
  intro other mem
  rcases mem_putMethod mem with rfl | old
  · exact ⟨m, _, resolved⟩
  · exact known other old

/-- Parameters are laid out from offset zero. -/
theorem exists_place_callable {m : MethodDecl} {exportName : String} {c : Callable}
    (h : s.callable m exportName = .ok c) :
    ∃ declared size, Layout.place 0 declared = (c.params, size) := by
  obtain ⟨params, -, h⟩ := bind_eq_ok.1 h
  obtain ⟨_, -, same⟩ := bind_eq_ok.1 h
  cases same
  exact ⟨params, _, rfl⟩

theorem exists_place_params {exportIdx : Nat} {d : ExportDecl} {e : Export}
    (h : s.resolveExport exportIdx d = .ok e) :
    ∀ c ∈ e.callables, ∃ declared size, Layout.place 0 declared = (c.params, size) := by
  cases d <;> obtain ⟨_, resolved, same⟩ := bind_eq_ok.1 h <;> cases same
  case ofClass d =>
    simp only [resolveClass, bind_eq_ok, pure, Except.pure, Except.ok.injEq] at resolved
    obtain ⟨_, -, _, -, methods, added, constructor, resolved, _, -, rfl⟩ := resolved
    have first := exists_place_callable (c := constructor) resolved
    refine List.forall_mem_cons.2 ⟨first, fun c hc => ?_⟩
    obtain ⟨m, exportName, resolved⟩ := exists_callable_methods added c hc
    exact exists_place_callable resolved
  case ofFunction d =>
    intro c hc
    obtain rfl := List.mem_singleton.1 hc
    exact exists_place_callable resolved
  all_goals exact List.forall_mem_nil _

end Scope

/-- Arguments that fit are apart from each other, and a blob that is as long as they extend holds
all of them. -/
theorem sound_params (h : resolve package d = .ok a) {e : Export} (he : e ∈ a.exports)
    {c : Callable} (hc : c ∈ e.callables) (fits : Layout.Fits 0 c.params) :
    Layout.Sound 0 c.params (Ty.extent c.params).toNat := by
  obtain ⟨decl, idx, resolved⟩ := exists_forall₂.1 ⟨_, (forall₂_resolveExport h).flip⟩ e he
  obtain ⟨declared, size, placed⟩ := Scope.exists_place_params resolved c hc
  have sound := Layout.sound_of_fits placed fits
  refine { sound with within := fun f hf => ?_ }
  have inside := Nat.lt_of_le_of_lt (sound.within f hf) size.toNat_lt
  rw [← Layout.toNat_add_of_lt inside]
  exact Ty.le_extent hf

/-- The classes of an ABI are those at the indices of its exports. -/
theorem exists_classAt_of_mem {c : Class} (hc : c ∈ a.classes) : ∃ idx, a.classAt idx = .ok c := by
  obtain ⟨e, he, same⟩ := List.mem_filterMap.1 hc
  obtain ⟨idx, found⟩ := List.mem_iff_getElem?.1 he
  cases e <;> cases same
  exact ⟨idx, by rw [classAt, found]⟩

/-- The fields of a class stand behind its header, sound exactly if they fit. -/
theorem sound_class_iff_fits (h : resolve package d = .ok a) {c : Class} (hc : c ∈ a.classes) :
    Layout.Sound 4 c.fields c.size.toNat ↔ Layout.Fits 4 c.fields := by
  obtain ⟨idx, found⟩ := exists_classAt_of_mem hc
  obtain ⟨decl, -, resolved⟩ := exists_resolveClass_of_classAt h found
  obtain ⟨fields, -, placed⟩ := Scope.fields_resolveClass resolved
  exact Layout.sound_iff_fits placed

/-- The fields of a class and of all objects in them fit into 32 bits, and so does its index. -/
structure Class.Fits (c : Class) : Prop where
  index : c.exportIdx < UInt32.size
  fields : Layout.Fits Scope.jigHeaderSize.toNat c.fields
  objects : ∀ f ∈ c.fields, ∀ name fields size,
    (Ty.object name fields size).Occurs f.ty → Layout.Fits 0 fields

/-- A class that fits is laid out. -/
theorem Class.Fits.laid {c : Class} (fits : c.Fits) (h : resolve package d = .ok a) {idx : Nat}
    (hc : a.classAt idx = .ok c) : c.Laid := by
  obtain ⟨decl, -, declared⟩ := exists_resolveClass_of_classAt h hc
  obtain ⟨fields, -, placed⟩ := Scope.fields_resolveClass declared
  refine ⟨(Layout.exact_place placed fits.fields).1, fun f mem => ?_⟩
  obtain ⟨s, e, typed⟩ := isResolved_fieldTypes h hc f.ty (List.mem_map_of_mem mem)
  exact (Scope.proper_type typed).laid_of_fits (fits.objects f mem)

end Abi

end JigLedger
