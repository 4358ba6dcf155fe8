import JigLedger.Proofs.Engine.Shortage

/-!
# Blank values in memory

The zero value of a type has nothing but empty sequences in it. So it is brought into memory with a
few requests for room, and only these can fail. The same is true of the object of a jig that is
blank but for its scalars.
-/

namespace JigLedger.Ty

open Engine

/-- A value is that of a scalar, or it is zero. -/
def IsBlank (t : Ty) (v : Value) : Prop := t.isScalar = true ∨ t.zero = .ok v

/-- The zero values of fields are blank. -/
theorem isBlank_of_zeroFields {fields : List Field} {values : List Value}
    (h : zeroFields fields = .ok values) :
    List.Forall₂ (fun f v => IsBlank f.ty v) fields values := by
  induction fields generalizing values with
  | nil =>
    cases h
    exact .nil
  | cons f fields ih =>
    obtain ⟨v, first, rest⟩ := bind_eq_ok.1 h
    obtain ⟨more, others, same⟩ := bind_eq_ok.1 rest
    cases same
    exact .cons (.inr first) (ih others)

theorem arrange_null : ∀ t : Ty, t.arrange .null = .null
  | .nullable t => by
    rw [arrange]
    exact arrange_null t
  | .bool | .u8 | .u16 | .u32 | .u64 | .i8 | .i16 | .i32 | .i64 | .string | .bytes | .array _
  | .map _ _ | .object _ _ _ | .jig _ => rfl

mutual

/-- A zero value has no map entries that could be put in order. -/
theorem arrange_of_zero : ∀ (t : Ty) {v : Value}, t.zero = .ok v → t.arrange v = v
  | .map _ _, _, h => by
    cases h
    rw [arrange, sortByKey, List.mergeSort_nil]
    rfl
  | .nullable t, _, h => by
    cases h
    exact arrange_null _
  | .object _ fields _, _, h => by
    obtain ⟨values, zeros, same⟩ := bind_eq_ok.1 h
    cases same
    rw [arrange, arrangeFields_of_zero fields zeros]
  | .bool, _, h | .u8, _, h | .u16, _, h | .u32, _, h | .u64, _, h | .i8, _, h | .i16, _, h
  | .i32, _, h | .i64, _, h | .string, _, h | .bytes, _, h
  | .array _, _, h => by
    cases h
    rfl
  | .jig _, _, h => by cases h

theorem arrangeFields_of_zero : ∀ (fields : List Field) {values : List Value},
    zeroFields fields = .ok values → arrangeFields fields values = values
  | [], _, h => by
    cases h
    rfl
  | ⟨_, t, _⟩ :: fields, _, h => by
    obtain ⟨v, first, rest⟩ := bind_eq_ok.1 h
    obtain ⟨values, others, same⟩ := bind_eq_ok.1 rest
    cases same
    rw [arrangeFields, arrange_of_zero t first, arrangeFields_of_zero fields others]

end

/-- Neither do blank values. -/
theorem IsBlank.arrange {t : Ty} {v : Value} (h : t.IsBlank v) : t.arrange v = v := by
  rcases h with scalar | zero
  · cases t <;> first | rfl | cases scalar
  · exact arrange_of_zero t zero

theorem arrangeRow_of_blank {fields : List Field} {values : List Value}
    (h : List.Forall₂ (fun f v => IsBlank f.ty v) fields values) :
    arrangeRow (fields.map (·.ty)) values = values := by
  induction h with
  | nil => rfl
  | cons first _ ih => exact congrArg₂ List.cons first.arrange ih

section Withstanding

variable {view : View} {fallen : Failure → Session → Prop} {heap : Heap Engine}
  (stands : Withstands view fallen heap) {W : Set Nat}

include stands

/-! ### Values in place -/

theorem failsOnly_writeSlot {t : Ty} {v : Value} {alloc : Value → Engine UInt32}
    {Q : UInt32 → LinearMemory → Prop} {address : UInt32} (shape : t.check v = .ok ())
    (inner : t.isScalar = false →
      FailsOnly view fallen W (alloc v) ∧ Fills view W (alloc v) Q)
    (covered : span address.toNat t.size.toNat ⊆ W) :
    FailsOnly view fallen W (writeSlot heap alloc t v address) := by
  have sized := (Layout.isAlignment_size t).le
  unfold writeSlot
  by_cases scalar : t.isScalar = true
  · obtain ⟨bs, written, size, -⟩ := exists_scalarBytes? scalar shape
    simp only [if_pos scalar, shape, written]
    have checked : Fills view W (heap.lift ((.ok () : Except ValueError Unit).mapError .value))
        fun _ _ => True := .lift stands.toServes fun _ _ _ => trivial
    refine (FailsOnly.lift rfl).bind checked fun _ _ _ => .write stands ?_
    rw [size]
    exact reaches_span sized.1 covered
  · have pointer : t.isScalar = false := by simpa using scalar
    have four : t.size.toNat = 4 := by cases t <;> first | rfl | cases pointer
    simp only [pointer, Bool.false_eq_true, if_false]
    obtain ⟨fails, fills⟩ := inner pointer
    exact fails.bind fills fun p _ _ => .writeWord stands (four ▸ covered)

/-! ### Buffers and empty sequences -/

theorem failsOnly_writeBuffer {bs : Bytes} (small : bs.length + 4 < UInt32.size) :
    FailsOnly view fallen W (heap.writeBuffer bs) := by
  have short : bs.length < UInt32.size := by omega
  have length : (UInt32.ofNat bs.length).toNat = bs.length := UInt32.toNat_ofNat_of_lt' short
  have whole : (4 + UInt32.ofNat bs.length).toNat = 4 + bs.length := by
    rw [UInt32.toNat_add, length]
    exact Nat.mod_eq_of_lt (by rw [UInt32.size] at small; change 4 + _ < _; omega)
  unfold Heap.writeBuffer
  simp only [if_pos short]
  refine .alloc_bind stands fun p _ _ => ?_
  rw [whole]
  have here : span p.toNat (4 + bs.length) ⊆ W ∪ span p.toNat (4 + bs.length) :=
    Set.subset_union_right
  have head : span p.toNat 4 ⊆ W ∪ span p.toNat (4 + bs.length) :=
    (span_subset (Nat.le_refl _) (by omega)).trans here
  refine (FailsOnly.writeWord stands head).bind (.writeWord stands.toServes fun _ => head)
    fun _ _ _ => .bind_pure (.write stands ?_)
  -- The address of the contents may be zero again if there are none.
  have next : (p + 4).toNat ≤ p.toNat + 4 := by
    rw [UInt32.toNat_add]
    exact Nat.mod_le _ _
  intro size inside
  have enough := reaches_span (by omega) here size inside
  omega

/-- The record of a sequence. -/
theorem failsOnly_record (length data : UInt32) :
    FailsOnly view fallen W (do
      let header ← heap.alloc 8
      heap.writeWord header length
      heap.writeWord (header + 4) data
      return header) := by
  refine .alloc_bind stands fun p _ bounded => ?_
  have eight : (8 : UInt32).toNat = 8 := rfl
  rw [eight] at bounded ⊢
  have next : (p + 4).toNat = p.toNat + 4 := by
    rw [UInt32.toNat_add]
    refine Nat.mod_eq_of_lt ?_
    rw [UInt32.size] at bounded
    change p.toNat + 4 < _
    omega
  have here : span p.toNat 8 ⊆ W ∪ span p.toNat 8 := Set.subset_union_right
  have first : span p.toNat 4 ⊆ W ∪ span p.toNat 8 :=
    (span_subset (Nat.le_refl _) (by omega)).trans here
  have second : span (p + 4).toNat 4 ⊆ W ∪ span p.toNat 8 :=
    (span_subset (by omega) (by omega)).trans here
  exact (FailsOnly.writeWord stands first).bind (.writeWord stands.toServes fun _ => first)
    fun _ _ _ => .bind_pure (.writeWord stands second)

theorem failsOnly_allocSequence_nil {α : Type} {item : α → UInt32 → Engine Unit} {stride : UInt32} :
    FailsOnly view fallen W (allocSequence heap item stride []) := by
  unfold allocSequence
  refine .alloc_bind stands fun data _ _ => ?_
  have none (W : Set Nat) : Fills view W (writeStrided item stride data []) fun _ _ => True :=
    .pure fun _ => trivial
  exact (FailsOnly.pure ()).bind (none _) fun _ _ _ => failsOnly_record stands _ _

/-! ### Fields -/

/-- The zero value of a type can be allocated. -/
def BlankFails (view : View) (fallen : Failure → Session → Prop) (heap : Heap Engine) (t : Ty) :
    Prop :=
  ∀ v bs, t.Encodes v bs → t.isScalar = false → t.zero = .ok v → ∀ W,
    FailsOnly view fallen W (t.allocValue heap v)

theorem failsOnly_writeFieldsAt {fields : List Field} {values : List Value} {bs : Bytes}
    (laid : ∀ f ∈ fields, f.ty.Laid) (each : ∀ f ∈ fields, f.ty.BlankFails view fallen heap)
    (row : EncodesRow (fields.map (·.ty)) values bs)
    (blank : List.Forall₂ (fun f v => IsBlank f.ty v) fields values) {base : UInt32}
    {start finish : Nat} (spaced : Layout.Spaced start fields finish)
    (room : base.toNat + finish ≤ UInt32.size)
    (covered : Set.Ico (base.toNat + start) (base.toNat + finish) ⊆ W) :
    FailsOnly view fallen W (writeFieldsAt heap fields values base) := by
  induction blank generalizing bs start with
  | nil => exact .pure ()
  | @cons f v fields values here others ih =>
    obtain ⟨first, more, encoded, rest, rfl⟩ := row
    obtain ⟨behind, spaced⟩ := spaced
    have within := spaced.le
    have sized := (Layout.isAlignment_size f.ty).le
    have place : (base + f.offset).toNat = base.toNat + f.offset.toNat := by
      rw [UInt32.toNat_add]
      refine Nat.mod_eq_of_lt ?_
      rw [UInt32.size] at room
      omega
    have slot : span (base + f.offset).toNat f.ty.size.toNat ⊆ W := by
      refine fun a ha => covered ?_
      rw [mem_span, place] at ha
      rw [Set.mem_Ico]
      omega
    have tail : Set.Ico (base.toNat + (f.offset.toNat + f.ty.size.toNat)) (base.toNat + finish) ⊆
        W := (Set.Ico_subset_Ico_left (by omega)).trans covered
    have kept := (laid f (.head _)).kept stands.toServes
    have written := failsOnly_writeSlot stands encoded.check (fun pointer => by
      refine ⟨each f (.head _) v first encoded pointer ?_ W,
        (kept v first encoded pointer).mono (Set.empty_subset _)⟩
      rcases here with scalar | zero
      · rw [pointer] at scalar
        cases scalar
      · exact zero) slot
    have filled := kept.slot stands.toServes encoded fun _ => slot
    exact written.bind filled fun _ _ _ => ih (fun g hg => laid g (.tail _ hg))
      (fun g hg => each g (.tail _ hg)) rest spaced tail

/-- The zero values of all types that are laid out can be allocated. -/
theorem Laid.blankFails {t : Ty} (h : t.Laid) : t.BlankFails view fallen heap := by
  induction h with
  | @leaf t plain =>
    intro v bs _ pointer zero W
    cases t
    case string =>
      cases zero
      exact failsOnly_writeBuffer stands (by decide)
    case bytes =>
      cases zero
      exact failsOnly_writeBuffer stands (by decide)
    case jig => cases zero
    case array | map | nullable | object => cases plain
    all_goals cases pointer
  | array _ _ =>
    rintro v bs - - ⟨⟩ W
    exact failsOnly_allocSequence_nil stands
  | map _ _ _ =>
    rintro v bs - - ⟨⟩ W
    exact failsOnly_allocSequence_nil stands
  | nullable _ _ =>
    rintro v bs - - ⟨⟩ W
    exact .pure 0
  | @object name fields size spaced laid ih =>
    intro v bs encoded _ zero W
    obtain ⟨values, zeros, same⟩ := bind_eq_ok.1 zero
    cases same
    obtain ⟨values', same, row⟩ := encodes_object.1 encoded
    cases same
    have most := le_toNat_max_one size
    rw [allocValue]
    have checked : Fills view W (heap.lift
        (((Ty.object name fields size).check (.object values)).mapError .value)) fun _ _ => True :=
      .lift stands.toServes fun _ _ _ => trivial
    refine (FailsOnly.lift (by rw [encoded.check]; rfl)).bind checked fun _ _ _ =>
      .alloc_bind stands fun p _ bounded => ?_
    refine .bind_pure (failsOnly_writeFieldsAt stands laid ih row (isBlank_of_zeroFields zeros)
      spaced (by omega) ?_)
    refine fun a ha => .inr (mem_span.2 ?_)
    rw [Set.mem_Ico] at ha
    omega

end Withstanding

end JigLedger.Ty

namespace JigLedger.Engine

/-- The object of a jig that is blank but for its scalars can be built. -/
theorem failsOnly_buildObject {view : View} {fallen : Failure → Session → Prop} {h : Host}
    {home : Nat} (stands : Withstands view fallen (h.heap home (.object home))) {cls : Abi.Class}
    (laid : cls.Laid) {values : List Value} {bs : Bytes}
    (row : Ty.EncodesRow cls.fieldTypes values bs)
    (blank : List.Forall₂ (fun f v => Ty.IsBlank f.ty v) cls.fields values) (origin : Pointer) :
    FailsOnly view fallen ∅ (h.buildObject home cls origin values) := by
  have header : Abi.Scope.jigHeaderSize.toNat = 4 := rfl
  have enough : 4 ≤ cls.size.toNat := laid.spaced.le
  refine .alloc_bind stands fun p _ bounded => ?_
  rw [Set.empty_union]
  have head : span p.toNat 4 ⊆ span p.toNat cls.size.toNat :=
    span_subset (Nat.le_refl _) (by omega)
  have small : origin.toBytes.length + 4 < UInt32.size := by
    rw [Pointer.length_toBytes]
    decide
  have serves := stands.toServes
  have buffer := (Ty.fills_writeBuffer serves small).mono
    (Set.empty_subset (span p.toNat cls.size.toNat))
  have first : FailsOnly view fallen (span p.toNat cls.size.toNat)
      (Ty.writeOrigin (h.heap home (.object home)) p origin) :=
    (Ty.failsOnly_writeBuffer stands small).bind buffer fun _ _ _ => .writeWord stands head
  have written : Fills view (span p.toNat cls.size.toNat)
      (Ty.writeOrigin (h.heap home (.object home)) p origin) fun _ _ => True :=
    buffer.bind_same fun word =>
      (Fills.writeWord serves fun _ => head).imp fun _ _ _ => trivial
  refine first.bind written fun _ _ _ => ?_
  rw [Ty.writeRecord, if_pos blank.length_eq]
  refine .bind_pure (Ty.failsOnly_writeFieldsAt stands laid.types
    (fun f mem => (laid.types f mem).blankFails stands) row blank laid.spaced bounded ?_)
  refine fun a ha => mem_span.2 ?_
  rw [Set.mem_Ico] at ha
  omega

end JigLedger.Engine
