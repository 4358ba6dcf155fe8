import JigLedger.Abi.Clocked
import JigLedger.Proofs.Abi.Names
import Mathlib.Data.Finset.Card

/-!
# Resolution comes to an end

The searches of `Abi.Clocked` come to an end for every document, with what `Abi.resolve` says, if
the clock is set high enough. Objects inside each other and classes derived from each other have
different names, and all but the outermost are exports: there are always fewer exports that have not
been entered. An interface whose parents are looked at is found at that moment, so it is not looked
at again.
-/

namespace JigLedger.Abi.Clocked

variable {α β : Type} {s : Scope} {visiting below : List String} {room clock : Nat}

/-! ### Searches that end -/

@[simp] theorem pure_eq (a : α) : (pure a : Search α) = ended (.ok a) := rfl

@[simp] theorem throw_eq (e : AbiError) : (throw e : Search α) = ended (.error e) := rfl

/-- The search ends with this result if the clock is set high enough. -/
def Ends (search : Nat → Search α) (result : Except AbiError α) : Prop :=
  ∃ enough, ∀ clock ≥ enough, search clock = ended result

namespace Ends

variable {f : Nat → Search α} {g : Nat → α → Search β} {x : Except AbiError α}
  {y : α → Except AbiError β} {items : List α}

/-- Nothing is left to be done. -/
theorem now (x : Except AbiError α) : Ends (fun _ => ended x) x := ⟨0, fun _ _ => rfl⟩

/-- One more call is made. -/
theorem call (h : Ends (fun clock => f (clock + 1)) x) : Ends f x := by
  obtain ⟨enough, ends⟩ := h
  refine ⟨enough + 1, fun clock above => ?_⟩
  obtain ⟨clock, rfl⟩ := Nat.exists_eq_add_of_le' (Nat.le_of_add_left_le above)
  exact ends clock (Nat.le_of_succ_le_succ above)

theorem bind (hf : Ends f x) (hg : ∀ a, x = .ok a → Ends (fun clock => g clock a) (y a)) :
    Ends (fun clock => f clock >>= g clock) (x >>= y) := by
  obtain ⟨first, ends⟩ := hf
  rcases x with e | a
  · refine ⟨first, fun clock above => ?_⟩
    dsimp only
    rw [ends clock above]
    rfl
  · obtain ⟨second, ends'⟩ := hg a rfl
    refine ⟨max first second, fun clock above => ?_⟩
    dsimp only
    rw [ends clock (le_of_max_le_left above)]
    exact ends' clock (le_of_max_le_right above)

theorem mapM {f : Nat → α → Search β} (h : ∀ a ∈ items, Ends (fun clock => f clock a) (y a)) :
    Ends (fun clock => items.mapM (f clock)) (items.mapM y) := by
  induction items with
  | nil => exact now _
  | cons a rest ih =>
    simp only [List.mapM_cons]
    exact (h a (.head _)).bind fun b _ =>
      (ih fun a ha => h a (.tail _ ha)).bind fun bs _ => now (.ok (b :: bs))

theorem foldlM {f : Nat → β → α → Search β} {y : β → α → Except AbiError β}
    (h : ∀ b, ∀ a ∈ items, Ends (fun clock => f clock b a) (y b a)) (b : β) :
    Ends (fun clock => items.foldlM (f clock) b) (items.foldlM y b) := by
  induction items generalizing b with
  | nil => exact now _
  | cons a rest ih =>
    simp only [List.foldlM_cons]
    exact (h b a (.head _)).bind fun b' _ => ih (fun b a ha => h b a (.tail _ ha)) b'

end Ends

/-! ### Types -/

section Types

variable {bounded : ObjectDecl → Except AbiError Ty}
  (objects : ∀ d, .ofObject d ∈ s.exports →
    Ends (fun clock => object s clock visiting d) (bounded d))

include objects

theorem ends_named (name : String) :
    Ends (fun clock => named s clock visiting name) (s.namedType bounded name) := by
  refine .call ?_
  simp only [named]
  rw [Scope.namedType]
  rcases found : s.export? name with _ | (_ | _ | _ | d)
  · rcases s.import? name with _ | ⟨_ | _ | _, _, _⟩ <;> exact .now _
  · exact .now _
  · exact .now _
  · exact .now _
  · exact objects d (List.mem_of_find?_eq_some found)

/-- A name stands for a type if its type arguments do. -/
theorem ends_base (name : String) {args : List TypeExpr}
    (inner : ∀ e ∈ args, Ends (fun clock => type s clock visiting e) (s.typeWith bounded e)) :
    Ends (fun clock => base s clock visiting name args) (s.baseWith bounded name args) := by
  refine .call ?_
  simp only [base, pure_eq, throw_eq]
  unfold Scope.baseWith
  rcases Scope.primitive? name with _ | t
  · dsimp only
    split
    · exact .now _
    split
    · rcases args with _ | ⟨item, _ | ⟨_, _⟩⟩
      · exact .now _
      · have only := (inner item (.head _)).bind fun t _ => Ends.now (.ok t.array)
        simp only [Scope.typesWith]
        rcases typed : s.typeWith bounded item with e | t <;> rw [typed] at only <;> exact only
      · simp only [Scope.checkArity]
        exact .now _
    split
    · rcases args with _ | ⟨k, _ | ⟨v, _ | ⟨_, _⟩⟩⟩
      · exact .now _
      · exact .now _
      · refine (inner k (.head _)).bind fun key _ => ?_
        split
        · exact (inner v (.tail _ (.head _))).bind fun _ _ => .now _
        · exact .now _
      · exact .now _
    split
    · exact (Ends.now _).bind fun _ _ => .now _
    · exact (Ends.now _).bind fun _ _ => ends_named objects name
  · exact (Ends.now _).bind fun _ _ => .now _

theorem ends_type : (e : TypeExpr) →
    Ends (fun clock => type s clock visiting e) (s.typeWith bounded e)
  | .mk name nullable args => by
    have inner : ∀ e ∈ args, Ends (fun clock => type s clock visiting e) (s.typeWith bounded e) :=
      fun e _ => ends_type e
    refine .call ?_
    simp only [type]
    rw [Scope.typeWith]
    exact (ends_base objects name inner).bind fun _ _ => .now _

/-- The types of fields come to an end one after the other. -/
theorem ends_fields (decls : List FieldDecl) :
    Ends (fun clock => decls.mapM fun f => do return (f.name, ← type s clock visiting f.ty))
      (s.fieldsWith bounded decls) :=
  .mapM fun f _ => (ends_type objects f.ty).bind fun _ _ => .now _

end Types

/-! ### Objects inside each other -/

/-- The number of exported names that have not been entered. -/
def fresh (s : Scope) (entered : List String) : Nat :=
  ((s.exports.map (·.name)).toFinset \ entered.toFinset).card

theorem fresh_le (s : Scope) (entered : List String) : fresh s entered ≤ s.exports.length :=
  calc fresh s entered
    _ ≤ (s.exports.map (·.name)).toFinset.card := Finset.card_le_card Finset.sdiff_subset
    _ ≤ (s.exports.map (·.name)).length := List.toFinset_card_le _
    _ = s.exports.length := List.length_map _

/-- Entering an export leaves fewer names. -/
theorem fresh_lt {d : ExportDecl} {entered : List String} (exported : d ∈ s.exports)
    (new : d.name ∉ entered) : fresh s (d.name :: entered) < fresh s entered := by
  rw [fresh, fresh, List.toFinset_cons, Finset.sdiff_insert]
  refine Finset.card_erase_lt_of_mem (Finset.mem_sdiff.2 ⟨?_, ?_⟩)
  · exact List.mem_toFinset.2 (List.mem_map_of_mem exported)
  · exact fun mem => new (List.mem_toFinset.1 mem)

/-- There is room for all objects that can still be inside each other. -/
theorem ends_objectType {d : ObjectDecl} (exported : .ofObject d ∈ s.exports)
    (enough : fresh s visiting ≤ room) :
    Ends (fun clock => object s clock visiting d) (s.objectType room visiting d) := by
  induction room generalizing visiting d with
  | zero =>
    have entered : d.name ∈ visiting := by
      by_contra new
      exact absurd (fresh_lt exported new) (by omega)
    refine .call ?_
    simp only [object, if_pos entered]
    exact .now _
  | succ room ih =>
    refine .call ?_
    rw [Scope.objectType]
    by_cases entered : d.name ∈ visiting
    · simp only [object, if_pos entered]
      exact .now _
    · have fewer : fresh s (d.name :: visiting) < fresh s visiting := fresh_lt exported entered
      simp only [object, if_neg entered]
      exact (ends_fields (fun d' exported' => ih exported' (by omega)) d.fields).bind
        fun _ _ => .now _

/-- The bound on objects inside each other is never reached. -/
theorem ends_object (s : Scope) (d : ObjectDecl) :
    Ends (fun clock => object s clock [] d) (s.object d) := by
  have inside (d' : ObjectDecl) (exported : .ofObject d' ∈ s.exports) :
      Ends (fun clock => object s clock [d.name] d')
        (s.objectType s.exports.length [d.name] d') :=
    ends_objectType exported (fresh_le s [d.name])
  refine .call ?_
  simp only [object, if_neg List.not_mem_nil]
  rw [Scope.object, Scope.objectType, if_neg List.not_mem_nil]
  exact (ends_fields inside d.fields).bind fun _ _ => .now _

theorem ends_callable (s : Scope) (d : MethodDecl) (exportName : String) :
    Ends (fun clock => callable s clock d exportName) (s.callable d exportName) := by
  have objects (d : ObjectDecl) (_ : .ofObject d ∈ s.exports) := ends_object s d
  refine (ends_fields objects d.args).bind fun params _ => ?_
  have result : Ends (fun clock => d.result.mapM (type s clock [])) (d.result.mapM s.type) := by
    rcases d.result with _ | e
    · exact .now _
    · have written := (ends_type objects e).bind fun t _ => Ends.now (.ok (some t))
      show Ends (fun clock => some <$> type s clock [] e) (some <$> s.type e)
      simp only [map_eq_pure_bind]
      exact written
  exact result.bind fun _ _ => .now _

/-! ### Ancestors and interfaces -/

/-- There is room for all ancestors that can still follow. -/
theorem ends_ancestry {e : ExportDecl} (exported : e ∈ s.exports) (enough : fresh s below ≤ room) :
    Ends (fun clock => ancestry s clock below e) (s.ancestry room below e) := by
  refine .call ?_
  fun_induction Scope.ancestry s room below e with
  | case1 room below d entered =>
    simp only [ancestry, if_pos entered]
    exact .now _
  | case2 room below d new first =>
    simp only [ancestry, if_neg new, first]
    exact .now _
  | case3 room below d new parent isParent unknown =>
    simp only [ancestry, if_neg new, isParent, unknown]
    exact .now _
  | case4 below d new => exact absurd (fresh_lt exported new) (by omega)
  | case5 below d new parent isParent room next found ih =>
    have fewer : fresh s (d.name :: below) < fresh s below := fresh_lt exported new
    simp only [ancestry, if_neg new, isParent, found]
    exact (Ends.call (ih (Scope.mem_of_export? found).1 (by omega))).bind fun _ _ => .now _
  | case6 room below e other =>
    rcases e with d | _ | _ | _
    · exact absurd rfl (other d)
    all_goals exact .now _

theorem bind_eq_ended {f : Search α} {g : α → Search β} {z : Except AbiError β} :
    f >>= g = ended z ↔ ∃ x, f = ended x ∧ (ended x >>= g) = ended z := by
  constructor
  · intro h
    rcases f with _ | x
    · cases h
    · exact ⟨x, rfl, h⟩
  · rintro ⟨x, rfl, h⟩
    exact h

/-- If each step of a search still ends then the whole search still ends. -/
theorem foldlM_of_ended {f g : β → α → Search β} {items : List α}
    (still : ∀ b a x, f b a = ended x → g b a = ended x) {b : β} {x : Except AbiError β}
    (h : items.foldlM f b = ended x) : items.foldlM g b = ended x := by
  induction items generalizing b with
  | nil => exact h
  | cons a rest ih =>
    rw [List.foldlM_cons, bind_eq_ended] at h ⊢
    obtain ⟨y, first, more⟩ := h
    refine ⟨y, still b a y first, ?_⟩
    rcases y with e | b'
    · exact more
    · exact ih more

section Close

variable {found : RefSet} {name : String} {ref : ClassRef} {rest : List String}

theorem close_of_error {e : AbiError} (unknown : s.interfaceRef name = .error e) :
    close s (clock + 1) found name = ended (.error e) := by
  rw [close, unknown]
  rfl

theorem close_of_found (named : s.interfaceRef name = .ok ref) (old : found.contains ref = true) :
    close s (clock + 1) found name = ended (.ok found) := by
  rw [close, named]
  exact if_pos old

theorem close_of_new (named : s.interfaceRef name = .ok ref) (new : ¬ found.contains ref = true) :
    close s (clock + 1) found name =
      (s.parentsOf name).foldlM (close s clock) (found.insert ref) := by
  rw [close, named]
  exact if_neg new

/-- A search that has ended does so with more time as well. -/
theorem close_succ {x : Except AbiError RefSet} (h : close s clock found name = ended x) :
    close s (clock + 1) found name = ended x := by
  induction clock generalizing found name x with
  | zero => cases h
  | succ clock ih =>
    rcases named : s.interfaceRef name with e | ref
    · rwa [close_of_error named] at h ⊢
    by_cases old : found.contains ref = true
    · rwa [close_of_found named old] at h ⊢
    · rw [close_of_new named old] at h ⊢
      exact foldlM_of_ended (fun _ _ _ => ih) h

/-- The parents of an interface are looked at first, with less time than what comes after them. -/
theorem ends_close_cons {x : Except AbiError RefSet} (named : s.interfaceRef name = .ok ref)
    (new : ¬ found.contains ref = true)
    (h : Ends (fun clock =>
      (s.parentsOf name ++ rest).foldlM (close s clock) (found.insert ref)) x) :
    Ends (fun clock => close s clock found name >>= rest.foldlM (close s clock)) x := by
  obtain ⟨enough, ends⟩ := h
  simp only [List.foldlM_append] at ends
  refine .call ⟨enough, fun clock above => ?_⟩
  obtain ⟨y, parents, -⟩ := bind_eq_ended.1 (ends clock above)
  -- With one call more the parents still give the same.
  obtain ⟨z, again, more⟩ := bind_eq_ended.1 (ends (clock + 1) (Nat.le_succ_of_le above))
  have same := (foldlM_of_ended (fun _ _ _ => close_succ) parents).symm.trans again
  show close s (clock + 1) found name >>= _ = _
  rw [close_of_new named new, parents, same]
  exact more

end Close

/-- Looking at interfaces one after the other, each with all that it extends, is looking at the list
of those that are pending. -/
theorem ends_closeOver {unexpanded pending : List String} {found : RefSet}
    (accounted : s.Accounted unexpanded found) :
    Ends (fun clock => pending.foldlM (close s clock) found)
      (s.closeOver unexpanded pending found) := by
  fun_induction Scope.closeOver s unexpanded pending found with
  | case1 => exact .now _
  | case2 unexpanded found name rest known expanded passed =>
    simp only [List.foldlM_cons]
    rcases named : s.interfaceRef name with e | ref
    · have failed : Ends (fun clock => close s clock found name) (.error e) :=
        .call (by simp only [close_of_error named, Ends.now])
      exact failed.bind (y := fun found => .ok found) nofun
    change Ends _ (if _ then _ else _)
    split
    case isTrue old =>
      have same : Ends (fun clock => close s clock found name) (.ok found) :=
        .call (by simp only [close_of_found named old, Ends.now])
      exact same.bind fun _ same => Except.ok.inj same ▸ known accounted
    case isFalse new =>
      refine ends_close_cons named new ?_
      split
      case isTrue here => exact expanded ref here (accounted.expand named)
      case isFalse missing =>
        rw [accounted.parentsOf_eq_nil named new missing]
        exact passed ref (accounted.insert ref)

/-! ### Documents -/

theorem ends_addClass (s : Scope) (found : RefSet) (d : ClassDecl) :
    Ends (fun clock => addClass s clock found d) (s.addClass found d) := by
  refine .foldlM (fun found name _ => ?_) _
  have one : Ends (fun clock => [name].foldlM (close s clock) found)
      (s.closeOver (s.exports.map (·.name)) [name] found) :=
    ends_closeOver (s.accounted_exports found)
  simpa only [List.foldlM_cons, List.foldlM_nil, bind_pure] using one

theorem ends_lineageFields (s : Scope) (name : String) (seen : List String)
    (decls : List FieldDecl) : Ends (fun clock => lineageFields s clock name seen decls)
      (s.lineageFields name seen decls) := by
  have objects (d : ObjectDecl) (_ : .ofObject d ∈ s.exports) := ends_object s d
  induction decls generalizing seen with
  | nil => exact .now _
  | cons f rest ih =>
    simp only [lineageFields]
    rw [Scope.lineageFields]
    split
    · exact .now _
    · exact (ends_type objects f.ty).bind fun _ _ => (ih _).bind fun _ _ => .now _

theorem ends_addMethods (s : Scope) (table : List Callable) (d : ClassDecl) :
    Ends (fun clock => addMethods s clock table d) (s.addMethods table d) :=
  .foldlM (fun _ m _ => (ends_callable s m _).bind fun _ _ => .now _) table

theorem ends_resolveClass (exportIdx : Nat) {d : ClassDecl} (exported : .ofClass d ∈ s.exports) :
    Ends (fun clock => resolveClass s clock exportIdx d) (s.resolveClass exportIdx d) := by
  simp only [resolveClass, Scope.resolveClass, Scope.lineage, bind_assoc, pure_bind]
  refine (ends_ancestry exported (fresh_le s [])).bind fun chain _ => ?_
  refine (ends_lineageFields s d.name [] _).bind fun fields _ => ?_
  refine (Ends.foldlM (fun table d _ => ends_addMethods s table d) []).bind fun methods _ => ?_
  refine (ends_callable s _ _).bind fun constructor _ => ?_
  exact (Ends.foldlM (fun found d _ => ends_addClass s found d) ∅).bind fun _ _ => .now _

theorem ends_resolveExport (exportIdx : Nat) {d : ExportDecl} (exported : d ∈ s.exports) :
    Ends (fun clock => resolveExport s clock exportIdx d) (s.resolveExport exportIdx d) := by
  rcases d with d | d | d | d
  · exact (ends_resolveClass exportIdx exported).bind fun _ _ => .now _
  · exact (ends_callable s d _).bind fun _ _ => .now _
  · exact (Ends.now _).bind fun _ _ => .now _
  · exact (ends_object s d).bind fun _ _ => .now _

theorem ends_resolveExports {decls : List ExportDecl} (exported : ∀ d ∈ decls, d ∈ s.exports)
    (exportIdx : Nat) : Ends (fun clock => resolveExports s clock exportIdx decls)
      (s.resolveExports exportIdx decls) := by
  induction decls generalizing exportIdx with
  | nil => exact .now _
  | cons d rest ih =>
    exact (ends_resolveExport exportIdx (exported d (.head _))).bind fun _ _ =>
      (ih (fun d hd => exported d (.tail _ hd)) _).bind fun _ _ => .now _

/-- The search comes to an end for every document, with what resolution gives. -/
theorem ends_resolve (package : PackageId) (d : Document) :
    Ends (fun clock => resolve clock package d) (Abi.resolve package d) := by
  refine (Ends.now _).bind fun scope opened => ?_
  have same : scope.exports = d.exports := (Scope.ofDocument_eq_ok opened).2.1
  exact (ends_resolveExports (fun _ hd => same ▸ hd) 0).bind fun _ _ => .now _

end JigLedger.Abi.Clocked
